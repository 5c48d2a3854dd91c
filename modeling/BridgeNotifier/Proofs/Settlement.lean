import BridgeNotifier.Proofs.Announcements
import BridgeNotifier.Proofs.MaturityTicks
set_option autoImplicit false

namespace BridgeNotifier

section Account
open Surroundings

variable {allowed : Event → Prop} {s : Setup} {depth : UInt64} {t : Task} {x : Subject} {base : Nat}
variable {w v : Ledger}

theorem Owing.none (h : w.pending = []) :
    Owing s depth t x (fun _ => false) (w.pending.count x) w := by
  rw [h, List.count_nil]
  exact ⟨Nat.zero_le _, fun _ _ hp => nomatch hp⟩

theorem Accounted.of_idle_write {key : String} {value : UInt64} (h : Accounted s depth t x base w)
    (hv : ledger allowed w ⟨.store (.setInt key value), .ok ()⟩ v) (hnone : w.pending = [])
    (hpassed : ∀ p, s.passed depth w.ints t p = true → s.passed depth v.ints t p = true) :
    Accounted s depth t x base v := by
  refine h.of_write hv (.none hnone) fun p _ hp => hpassed p ?_
  simpa using hp

end Account

namespace Setup
open Routine Surroundings Contract

variable {s : Setup} {depth : UInt64} {t : Task} {x : Subject} {base : Nat} {allowed : Event → Prop}
variable {w : Ledger}

theorem handing_run {sc : Scan} (hle : sc.range.low ≤ sc.range.high) (hnone : w.pending = [])
    (entries : ∀ table : RecordTable, t.entries table =
      table.deposits.map fun e => (e.deposit.block, .deposit e.deposit sc.status))
    (fresh : ∀ p, Storable p → p ∈ sc.range → s.passed depth w.ints t p = false)
    {Q : ScanSummary → Ledger → Prop}
    (h : ∀ summary v, Accounted s depth t x base v → v.ints = w.ints →
      Owing s depth t x (fun p => p ∈ sc.range) (v.pending.count x) v → Q summary v) :
    sc.run.Ensures (ledger allowed) (Accounted s depth t x base) (handing s depth t x)
      (fun _ _ => True) w Q := by
  unfold Scan.run
  rw [if_neg (UInt64.not_lt.2 hle)]
  refine ⟨⟨entries, fresh, Nat.zero_le _, ?_⟩, fun r v hI hr => ?_⟩
  · rw [hnone]
    exact Nat.zero_le _
  · cases r with
    | error e => trivial
    | ok summary => exact h summary v hI hr.1 hr.2

section Maturity

variable {f : String → Option UInt64} {newHead p : UInt64} {range : BlockRange}

theorem passed_maturity_eq_false_iff : s.passed depth f .maturity p = false ↔
    Unreached ((f (s.key .head)).getD 0) depth p (f (s.key .scanned)) := by
  cases h : f (s.key .scanned) with
  | some y => simp [passed, h, Unreached]
  | none => simp [passed, h, Unreached]

theorem passed_scanned (high : UInt64) :
    s.passed depth (Function.update f (s.key .scanned) (some high)) .maturity p =
      decide (p ≤ high) := by
  simp [passed, Function.update_self]

theorem passed_head (hle : ((f (s.key .head)).getD 0).toNat ≤ newHead.toNat)
    (hp : s.passed depth f .maturity p = true) :
    s.passed depth (Function.update f (s.key .head) (some newHead)) .maturity p = true := by
  have hscanned := Function.update_of_ne s.scanned_ne_head (some newHead) f
  simp only [passed, hscanned, Function.update_self] at hp ⊢
  cases hy : f (s.key .scanned) with
  | some y =>
    simp only [hy] at hp ⊢
    exact hp
  | none =>
    simp only [hy, decide_eq_true_eq, Option.getD_some] at hp ⊢
    omega

/-- A window that ends below the scanned block is done with once the head moves. -/
theorem passed_of_stays (hhigh : range.high.toNat + depth.toNat = newHead.toNat)
    (hstays : range.high ≤ (f (s.key .scanned)).getD 0) (hp : p ∈ range) :
    s.passed depth (Function.update f (s.key .head) (some newHead)) .maturity p = true := by
  have hscanned := Function.update_of_ne s.scanned_ne_head (some newHead) f
  have hp' : p.toNat ≤ range.high.toNat := hp.2
  simp only [passed, hscanned, Function.update_self]
  cases hy : f (s.key .scanned) with
  | some y =>
    rw [hy] at hstays
    exact decide_eq_true (UInt64.le_trans hp.2 hstays)
  | none =>
    simp only [Option.getD_some, decide_eq_true_eq]
    omega

theorem le_high_of_passed (hlt : ((f (s.key .head)).getD 0).toNat < newHead.toNat)
    (hhigh : range.high.toNat + depth.toNat = newHead.toNat)
    (hgrows : (f (s.key .scanned)).getD 0 < range.high)
    (hp : s.passed depth f .maturity p = true) : p ≤ range.high := by
  rw [UInt64.le_iff_toNat_le]
  rw [UInt64.lt_iff_toNat_lt] at hgrows
  simp only [passed] at hp
  cases hy : f (s.key .scanned) with
  | some y =>
    simp only [hy, Option.getD_some, decide_eq_true_eq, UInt64.le_iff_toNat_le] at hp hgrows
    omega
  | none =>
    simp only [hy, decide_eq_true_eq] at hp
    omega

/-- The head moves last, when the sweep is done with all that is owed. -/
theorem moves_head {a : UInt64 → Bool} (hI : Accounted s depth .maturity x base w)
    (hlt : (w.ints (s.key .head)).getD 0 < newHead)
    (owing : Owing s depth .maturity x a (w.pending.count x) w)
    (hpassed : ∀ p : UInt64, a p = true →
      s.passed depth (Function.update w.ints (s.key .head) (some newHead)) .maturity p = true) :
    Shows.Moves (ledger allowed) Ledger.ints (Accounted s depth .maturity x base) (s.key .head)
      newHead w fun v => v.pending = [] := by
  refine ⟨fun hle => absurd hle (UInt64.not_le.2 hlt), fun _ v hv => ?_⟩
  obtain ⟨hints, -, -, hpending⟩ := ledger_write hv
  refine ⟨hI.of_write hv owing fun p _ hp => ?_, hpending⟩
  rw [hints]
  exact hp.elim (passed_head (Nat.le_of_lt hlt)) (hpassed p)

end Maturity

theorem handing_sweepMaturity (hI : Accounted s depth .maturity x base w) (hnone : w.pending = []) :
    s.sweepMaturity.Ensures (ledger (Event.depthIn (· = depth))) (Accounted s depth .maturity x base)
      (handing s depth .maturity x) (fun _ _ => True) w fun _ u => u.pending = [] := by
  refine ledger_shows.ensures_sweepMaturity hI hnone fun newHead d t hlt ht => ?_
  obtain rfl : d = depth := ht.1.1 d rfl
  obtain rfl := ledger_depth ht
  refine ⟨hI, ?_⟩
  cases hm : matured? ((t.ints (s.key .head)).getD 0) newHead d (t.ints (s.key .scanned)) with
  | none => exact moves_head hI hlt (.none hnone) fun _ hp => nomatch hp
  | some range =>
    obtain ⟨-, hle, hhigh⟩ := matured?_eq_some_iff.1 hm
    refine handing_run hle hnone (fun _ => rfl) (fun p hp hmem => ?_)
      fun summary v hv hints owing => ?_
    · have hp' : p.toNat + d.toNat ≤ newHead.toNat → p.toNat + 1 < 0x10000000000000000 :=
        fun _ => by omega
      exact passed_maturity_eq_false_iff.2 ((mem_matured?_iff_of_lt hlt hp').1 ⟨range, hm, hmem⟩).2
    · have hlt' : (v.ints (s.key .head)).getD 0 < newHead := by rw [hints]; exact hlt
      -- the scanned block settles the window if it moves, and the head does if it does not
      refine ⟨fun hstays => ?_, fun hgrows z hz => ?_⟩
      · exact moves_head hv hlt' owing fun p hp =>
          passed_of_stays hhigh hstays (of_decide_eq_true hp)
      · obtain ⟨hzints, -, -, hznone⟩ := ledger_write hz
        have hIz : Accounted s d .maturity x base z := by
          refine hv.of_write hz owing fun p _ hp => ?_
          rw [hzints, passed_scanned]
          refine decide_eq_true (hp.elim (le_high_of_passed hlt' hhigh hgrows) fun hp => ?_)
          exact (of_decide_eq_true hp).2
        have hhead : z.ints (s.key .head) = v.ints (s.key .head) := by
          rw [hzints, Function.update_of_ne s.scanned_ne_head.symm _ _]
        refine ⟨hIz, moves_head hIz ?_ (.none hznone) fun _ hp => nomatch hp⟩
        rw [hhead]
        exact hlt'

theorem writes_not_ceiling {r : Role} {key : String} {value : UInt64} (hk : s.key r.ceiling ≠ key)
    (hI : Accounted s depth (.batch r) x base w) (hnone : w.pending = []) :
    Shows.Writes (ledger allowed) (Accounted s depth (.batch r) x base) key value w fun v =>
      Accounted s depth (.batch r) x base v ∧ v.pending = [] := by
  intro v hv
  obtain ⟨hints, -, -, hpending⟩ := ledger_write hv
  have kept : Accounted s depth (.batch r) x base v := by
    refine hI.of_idle_write hv hnone fun p hp => ?_
    have hceiling : v.ints (s.key r.ceiling) = w.ints (s.key r.ceiling) := by
      rw [hints, Function.update_of_ne hk _ _]
    simp only [passed, hceiling] at hp ⊢
    exact hp
  exact ⟨kept, kept, hpending⟩

theorem handing_sweepBatch {r : Role} (hI : Accounted s depth (.batch r) x base w)
    (hnone : w.pending = []) : (s.sweepBatch r).Ensures (ledger allowed)
      (Accounted s depth (.batch r) x base) (handing s depth (.batch r) x) (fun _ _ => True) w
      fun _ u => u.pending = [] := by
  have rest : ∀ {latest : UInt64} {v : Ledger}, Accounted s depth (.batch r) x base v →
      v.pending = [] → Shows.Moves (ledger allowed) Ledger.ints
        (Accounted s depth (.batch r) x base) (s.key r.batch) latest v fun z => z.pending = [] ∧
          ∀ average, Shows.Writes (ledger allowed) (Accounted s depth (.batch r) x base)
            (s.estimator r).averageKey average z fun z => z.pending = [] :=
    fun hv hvnone => Shows.moves_after_ceiling (Q := fun v : Ledger => v.pending = [])
      (fun _ _ _ hk hI hnone => writes_not_ceiling hk hI hnone) hv hvnone
  refine ledger_shows.ensures_sweepBatch hI hnone (fun latest newCeiling _ hlt => ?_)
    fun latest newCeiling _ hle => ?_
  · have hlow := Word.toNat_succ_of_lt hlt
    have hle : (w.ints (s.key r.ceiling)).getD 0 + 1 ≤ newCeiling := by
      rw [UInt64.le_iff_toNat_le, hlow]
      exact hlt
    refine handing_run hle hnone (fun _ => rfl) ?_ fun summary v hv hints owing => ?_
    · rintro p - ⟨hp, -⟩
      have hp' : ((w.ints (s.key r.ceiling)).getD 0 + 1).toNat ≤ p.toNat := hp
      rw [hlow] at hp'
      simp only [passed, decide_eq_false_iff_not, UInt64.le_iff_toNat_le]
      omega
    · refine ⟨fun hle => ?_, fun _ z hz => ?_⟩
      · rw [hints] at hle
        exact absurd hle (UInt64.not_le.2 hlt)
      · obtain ⟨hzints, -, -, hznone⟩ := ledger_write hz
        have hIz : Accounted s depth (.batch r) x base z := by
          refine hv.of_write hz owing fun p _ hp => ?_
          simp only [passed, hzints, Function.update_self, hints, decide_eq_true_eq,
            Option.getD_some] at hp ⊢
          obtain hp | hp := hp
          · exact UInt64.le_trans hp (UInt64.le_of_lt hlt)
          · exact hp.2
        exact ⟨hIz, rest hIz hznone⟩
  · exact ⟨fun _ => rest hI hnone, fun hlt => absurd hle (UInt64.not_le.2 hlt)⟩

theorem handing_sweepFeed {f : Feed} (hI : Accounted s depth (.feed f) x base w)
    (hnone : w.pending = []) : (s.sweepFeed f).Ensures (ledger allowed)
      (Accounted s depth (.feed f) x base) (handing s depth (.feed f) x) (fun _ _ => True) w
      fun _ u => u.pending = [] := by
  have hS : (ledger allowed).Shows Ledger.ints fun _ _ => True := ledger_shows
  refine hS.ensures_sweepFeed hI (fun hw => ?_) fun start hw => ?_
  · have asked : ∀ {c : RecordCall} {Q : c.Answer → Ledger → Prop},
        (∀ a v, Accounted s depth (.feed f) x base v → v.pending = [] → Q a v) →
        (Routine.records c).Ensures (ledger allowed) (Accounted s depth (.feed f) x base)
          (handing s depth (.feed f) x) (fun _ _ => True) w Q := by
      intro c Q hQ
      refine ensures_records fun y v hv => ⟨hI.of_records hv, ?_⟩
      obtain ⟨-, -, -, hpending, -⟩ := ledger_records hv
      cases y with
      | error e => trivial
      | ok a => exact hQ a v (hI.of_records hv) (hpending.trans hnone)
    have begin : ∀ (latest : UInt64) v, Accounted s depth (.feed f) x base v → v.pending = [] →
        ((v.ints (s.key f.watermark)).isSome = true → v.pending = []) ∧
          (v.ints (s.key f.watermark) = none → Shows.Writes (ledger allowed)
            (Accounted s depth (.feed f) x base) (s.key f.watermark) latest v
              fun u => u.pending = []) := by
      intro latest v hv hvnone
      refine ⟨fun _ => hvnone, fun hnew z hz => ⟨?_, (ledger_write hz).2.2.2⟩⟩
      refine hv.of_idle_write hz hvnone fun p hp => ?_
      simp [passed, hnew] at hp
    cases f <;> exact asked begin
  · refine ⟨⟨rfl, rfl, hw, hnone⟩, fun r v _ hv => ?_⟩
    cases r with
    | error e => trivial
    | ok p => exact hv

theorem handing_sweep (hI : Accounted s depth t x base w) (hnone : w.pending = []) :
    (s.sweep t).Ensures (ledger (Event.depthIn (· = depth))) (Accounted s depth t x base)
      (handing s depth t x) (fun _ _ => True) w fun _ u => u.pending = [] := by
  cases t with
  | maturity => exact handing_sweepMaturity hI hnone
  | batch r => exact handing_sweepBatch hI hnone
  | feed f => exact handing_sweepFeed hI hnone

end Setup
end BridgeNotifier
