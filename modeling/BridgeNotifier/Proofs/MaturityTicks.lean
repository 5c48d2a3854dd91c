import BridgeNotifier.Proofs.Ownership
import BridgeNotifier.Proofs.Scanning
set_option autoImplicit false

namespace BridgeNotifier
open Word

def windowStart (oldHead depth : UInt64) : Option UInt64 → UInt64
  | some x => addCapped x 1
  | none => subFloored (addCapped oldHead 1) depth

/-- The block is above the last scanned one, or was not deep enough before if none is known. -/
def Unreached (oldHead depth b : UInt64) : Option UInt64 → Prop
  | some x => x < b
  | none => oldHead.toNat < b.toNat + depth.toNat

section Window
variable {oldHead newHead depth b : UInt64} {scanned : Option UInt64}

theorem matured?_eq : matured? oldHead newHead depth scanned =
    (sub? newHead depth).bind fun high =>
      if windowStart oldHead depth scanned ≤ high
        then some ⟨windowStart oldHead depth scanned, high⟩ else none := by
  cases scanned <;> rfl

theorem matured?_eq_some_iff {r : BlockRange} :
    matured? oldHead newHead depth scanned = some r ↔
      r.low = windowStart oldHead depth scanned ∧ r.low ≤ r.high ∧
        r.high.toNat + depth.toNat = newHead.toNat := by
  constructor
  · intro h
    have hle := le_of_matured? h
    rw [matured?_eq, Option.bind_eq_some_iff] at h
    obtain ⟨high, -, h⟩ := h
    split at h
    · obtain rfl := Option.some.inj h
      exact ⟨rfl, hle⟩
    · exact absurd h (by simp)
  · rintro ⟨hlow, hle, hhigh⟩
    have hsub : sub? newHead depth = some r.high := sub?_eq_some_iff.2 (by omega)
    rw [matured?_eq, hsub, ← hlow]
    exact if_pos hle

theorem toNat_windowStart_some (x : UInt64) :
    (windowStart oldHead depth (some x)).toNat = min (x.toNat + 1) 0xFFFFFFFFFFFFFFFF :=
  toNat_addCapped x 1

theorem toNat_windowStart_none : (windowStart oldHead depth none).toNat =
    min (oldHead.toNat + 1) 0xFFFFFFFFFFFFFFFF - depth.toNat := by
  have capped : (addCapped oldHead 1).toNat = min (oldHead.toNat + 1) 0xFFFFFFFFFFFFFFFF :=
    toNat_addCapped oldHead 1
  rw [← capped]
  exact toNat_subFloored _ _

theorem mem_matured?_iff_of_lt (hlt : oldHead < newHead)
    (hb : b.toNat + depth.toNat ≤ newHead.toNat → b.toNat + 1 < 0x10000000000000000) :
    (∃ r, matured? oldHead newHead depth scanned = some r ∧ b ∈ r) ↔
      b.toNat + depth.toNat ≤ newHead.toNat ∧ Unreached oldHead depth b scanned := by
  have hlt' : oldHead.toNat < newHead.toNat := hlt
  have hmax := newHead.toNat_lt
  have mem : (∃ r, matured? oldHead newHead depth scanned = some r ∧ b ∈ r) ↔
      b.toNat + depth.toNat ≤ newHead.toNat ∧
        (windowStart oldHead depth scanned).toNat ≤ b.toNat := by
    constructor
    · rintro ⟨r, hr, hlow, hhigh⟩
      rw [matured?_eq_some_iff] at hr
      have hhigh' : b.toNat ≤ r.high.toNat := hhigh
      rw [hr.1] at hlow
      exact ⟨by omega, hlow⟩
    · rintro ⟨hb, hlow⟩
      have hle : depth ≤ newHead := UInt64.le_iff_toNat_le.2 (by omega)
      have hhigh : (newHead - depth).toNat = newHead.toNat - depth.toNat :=
        UInt64.toNat_sub_of_le _ _ hle
      have hb' : b ≤ newHead - depth := UInt64.le_iff_toNat_le.2 (by omega)
      have hlow' : windowStart oldHead depth scanned ≤ b := hlow
      have hsum : (newHead - depth).toNat + depth.toNat = newHead.toNat := by omega
      refine ⟨⟨windowStart oldHead depth scanned, newHead - depth⟩, ?_, hlow', hb'⟩
      exact matured?_eq_some_iff.2 ⟨rfl, UInt64.le_trans hlow' hb', hsum⟩
  rw [mem]
  refine and_congr_right fun hle => ?_
  have hb := hb hle
  cases scanned with
  | some x =>
    rw [toNat_windowStart_some]
    change _ ↔ x.toNat < b.toNat
    omega
  | none =>
    rw [toNat_windowStart_none]
    change _ ↔ oldHead.toNat < b.toNat + depth.toNat
    omega

theorem mem_matured?_iff (hlt : oldHead < newHead) (hd : 1 ≤ depth) :
    (∃ r, matured? oldHead newHead depth scanned = some r ∧ b ∈ r) ↔
      b.toNat + depth.toNat ≤ newHead.toNat ∧ Unreached oldHead depth b scanned := by
  have hd' : 1 ≤ depth.toNat := hd
  have hmax := newHead.toNat_lt
  refine mem_matured?_iff_of_lt hlt fun hb => ?_
  omega

theorem mem_matured?_or (hlt : oldHead < newHead) (hd : 1 ≤ depth)
    (hb : b.toNat + depth.toNat ≤ newHead.toNat) :
    (∃ r, matured? oldHead newHead depth scanned = some r ∧ b ∈ r) ∨
      (∃ x, scanned = some x ∧ b ≤ x) ∨ b.toNat + depth.toNat ≤ oldHead.toNat := by
  rw [mem_matured?_iff hlt hd]
  cases scanned with
  | some x =>
    by_cases hx : b ≤ x
    · exact .inr (.inl ⟨x, rfl, hx⟩)
    · exact .inl ⟨hb, UInt64.not_le.1 hx⟩
  | none =>
    by_cases ho : b.toNat + depth.toNat ≤ oldHead.toNat
    · exact .inr (.inr ho)
    · exact .inl ⟨hb, Nat.lt_of_not_le ho⟩

end Window

def Event.depth? : Event → Option UInt64
  | ⟨.depth, d⟩ => some d
  | _ => none

def Event.depthIn (P : UInt64 → Prop) (e : Event) : Prop :=
  ∀ d ∈ e.depth?, P d

instance (P : UInt64 → Prop) [DecidablePred P] (e : Event) : Decidable (e.depthIn P) :=
  Option.decidableForallMem e.depth?

namespace Scanning

def depthRead (_ : Scanning) (o : Option UInt64) (e : Event) : Option UInt64 :=
  e.depth?.or o

theorem depthRead_apart : Apart depthRead where
  quiet := by
    rintro o l ⟨r, x⟩ hq
    cases r with
    | depth => cases hq
    | _ => rfl
  records _ _ _ _ := rfl
  launch _ _ _ _ := rfl

end Scanning

def Tick.depth? (t : Tick) : Option UInt64 :=
  (t.events.foldl (Scanning.alongside Scanning.depthRead) (.start, none)).2

/-- The tick came to its end and no call of it failed. -/
structure Tick.Undisturbed (t : Tick) : Prop where
  complete : t.result.isSome = true
  unfailing : ∀ e ∈ t.events, e.error? = none

instance (t : Tick) : Decidable t.Undisturbed :=
  decidable_of_iff (t.result.isSome = true ∧ ∀ e ∈ t.events, e.error? = none)
    ⟨fun h => ⟨h.1, h.2⟩, fun h => ⟨h.complete, h.unfailing⟩⟩

def scannedAfter (scanned : Option UInt64) : Option BlockRange → Option UInt64
  | none => scanned
  | some r => if scanned.getD 0 < r.high then some r.high else scanned

structure Moved (head scanned head' scanned' : Option UInt64) (o : Scanning)
    (start stop depth : UInt64) : Prop where
  start_eq : start = head.getD 0
  lt : start < stop
  completed : o.completed = (matured? start stop depth scanned).toList
  asked : ∀ r ∈ o.asked, r ∈ o.completed
  head_eq : head' = some stop
  scanned_eq : scanned' = scannedAfter scanned (matured? start stop depth scanned)

structure Still (head scanned head' scanned' : Option UInt64) (o : Scanning) : Prop where
  asked : o.asked = []
  completed : o.completed = []
  head_eq : head' = head
  scanned_eq : scanned' = scanned

/-- What a tick of the maturity sweep comes to when no call fails, with the numbers and notes at
both ends. -/
def MaturityStep (P : UInt64 → Prop) (head scanned head' scanned' : Option UInt64) (o : Scanning)
    (depth? : Option UInt64) : Outcome → Prop
  | .advanced start stop _ =>
    ∃ depth, depth? = some depth ∧ P depth ∧ Moved head scanned head' scanned' o start stop depth
  | _ => Still head scanned head' scanned' o

namespace Setup
open Routine Surroundings Scanning

variable {s : Setup} {P : UInt64 → Prop}

section Step

variable {f : String → Option UInt64} {newHead depth : UInt64}
variable {u : (String → Option UInt64) × Scanning × Option UInt64}

abbrev calmScans (P : UInt64 → Prop) :
    Surroundings ((String → Option UInt64) × Scanning × Option UInt64) :=
  scanned (fun e => e.depthIn P ∧ e.error? = none) depthRead

theorem calmScans_shows : (calmScans P).Shows Prod.fst fun _ _ => False :=
  scanned_shows depthRead_apart fun e err t ha he => by simp [ha.2] at he

structure Windowed (s : Setup) (f : String → Option UInt64) (newHead depth : UInt64)
    (u : (String → Option UInt64) × Scanning × Option UInt64) : Prop where
  head : u.1 (s.key .head) = f (s.key .head)
  scanned : u.1 (s.key .scanned) = scannedAfter (f (s.key .scanned))
    (matured? ((f (s.key .head)).getD 0) newHead depth (f (s.key .scanned)))
  read : u.2.2 = some depth
  completed : u.2.1.completed =
    (matured? ((f (s.key .head)).getD 0) newHead depth (f (s.key .scanned))).toList
  asked : ∀ r ∈ u.2.1.asked, r ∈ u.2.1.completed

theorem moves_head_windowed (hu : Windowed s f newHead depth u) (hP : P depth)
    (hlt : (f (s.key .head)).getD 0 < newHead) {dispatched : UInt64} :
    Shows.Moves (calmScans P) Prod.fst (fun _ => True) (s.key .head) newHead u fun v =>
      MaturityStep P (f (s.key .head)) (f (s.key .scanned)) (v.1 (s.key .head))
        (v.1 (s.key .scanned)) v.2.1 v.2.2
          (.advanced ((f (s.key .head)).getD 0) newHead dispatched) := by
  have hlt' : (u.1 (s.key .head)).getD 0 < newHead := by rw [hu.head]; exact hlt
  refine ⟨fun hle => absurd hle (UInt64.not_le.2 hlt'), fun _ v hv => ⟨trivial, ?_⟩⟩
  have hints : v.1 = Function.update u.1 (s.key .head) (some newHead) := calmScans_shows.write hv
  have hnotes : v.2 = u.2 := hv.2
  dsimp only
  rw [hnotes]
  refine ⟨depth, hu.read, hP, rfl, hlt, hu.completed, hu.asked, ?_, ?_⟩
  · rw [hints, Function.update_self]
  · rw [hints, Function.update_of_ne s.scanned_ne_head _ _, hu.scanned]

theorem ensures_sweepMaturity_step (f : String → Option UInt64) :
    s.sweepMaturity.Ensures (calmScans P) (fun _ => True) (Contract.scanning fun _ _ => False)
      (fun _ _ => False) (f, .start, none) fun o w =>
        MaturityStep P (f (s.key .head)) (f (s.key .scanned)) (w.1 (s.key .head))
          (w.1 (s.key .scanned)) w.2.1 w.2.2 o := by
  refine calmScans_shows.ensures_sweepMaturity trivial ⟨rfl, rfl, rfl, rfl⟩
    fun newHead depth w hlt hw => ⟨trivial, ?_⟩
  have hP : P depth := hw.1.1.1 depth rfl
  obtain rfl : w = (f, .start, some depth) := Prod.ext hw.1.2 hw.2
  cases hm : matured? ((f (s.key .head)).getD 0) newHead depth (f (s.key .scanned)) with
  | none =>
    have windowed : Windowed s f newHead depth (f, .start, some depth) := by
      refine ⟨rfl, ?_, rfl, ?_, fun r hr => nomatch hr⟩
      · rw [hm]
        rfl
      · rw [hm]
        rfl
    exact moves_head_windowed windowed hP hlt
  | some range =>
    refine Contract.scans_run (le_of_matured? hm).1 (.inl rfl) fun summary t _ ht => ?_
    have hints : t.1 = f := ht.ints
    have hdepth : t.2.2 = some depth := ht.notes
    have hcompleted : t.2.1.completed = [range] := ht.completed
    have hasked : ∀ r ∈ t.2.1.asked, r ∈ t.2.1.completed := by
      intro r hr
      rw [hcompleted]
      obtain hr | rfl := ht.asked r hr
      · exact nomatch hr
      · exact List.mem_singleton.2 rfl
    have hafter : scannedAfter (f (s.key .scanned)) (some range) =
        if (f (s.key .scanned)).getD 0 < range.high then some range.high
          else f (s.key .scanned) := rfl
    refine ⟨fun hle => ?_, fun hgrows u hu => ⟨trivial, ?_⟩⟩
    · refine moves_head_windowed
        ⟨by rw [hints], ?_, hdepth, by rw [hcompleted, hm]; rfl, hasked⟩ hP hlt
      rw [hints] at hle ⊢
      rw [hm, hafter, if_neg (UInt64.not_lt.2 hle)]
    · have hnotes : u.2 = t.2 := hu.2
      have written := calmScans_shows.write hu
      refine moves_head_windowed ⟨?_, ?_, by rw [hnotes, hdepth],
        by rw [hnotes, hcompleted, hm]; rfl, by rw [hnotes]; exact hasked⟩ hP hlt
      · rw [written, Function.update_of_ne s.scanned_ne_head.symm _ _, hints]
      · rw [hints] at hgrows
        rw [written, Function.update_self, hm, hafter, if_pos hgrows]

end Step

theorem maturityStep {m n : Memory} {es : List Event} {p : Program (Except Error Outcome)}
    (run : (s.tick .maturity).run.Leads (shared.only (Event.depthIn P)) m es p n)
    (ht : Tick.Undisturbed ⟨.maturity, es, p.result?⟩) :
    ∃ o, p.result? = some (.ok o) ∧ MaturityStep P (m.ints (s.key .head)) (m.ints (s.key .scanned))
      (n.ints (s.key .head)) (n.ints (s.key .scanned)) (Tick.scanning ⟨.maturity, es, p.result?⟩)
      (Tick.depth? ⟨.maturity, es, p.result?⟩) o := by
  obtain ⟨r, hr⟩ := Option.isSome_iff_exists.1 ht.complete
  obtain rfl := Program.eq_done_of_result? hr
  have allowed : (s.tick .maturity).run.Leads (numbers.only fun e => e.depthIn P ∧ e.error? = none)
      m.ints es (.done r) n.ints :=
    (run.only ht.unfailing).map Memory.ints fun _ _ _ h => ⟨⟨h.2.1, h.1⟩, numbers_of_shared h.2.2⟩
  have noted := allowed.noted (alongside depthRead) (.start, none)
  have htick := calmScans_shows.ensures_tick (t := .maturity) trivial ⟨rfl, rfl, rfl, rfl⟩
    (ensures_sweepMaturity_step (s := s) (P := P) m.ints)
  have hend := Program.Ensures.result htick (Contract.scanning_kept depthRead_apart
    (fun e err t ha he => by simp [ha.2] at he) fun _ _ _ _ _ _ _ => trivial) trivial noted
  cases r with
  | error e => exact hend.elim
  | ok o =>
    rw [foldl_alongside] at hend
    exact ⟨o, rfl, hend⟩

end Setup
end BridgeNotifier
