import BridgeNotifier.Proofs.MaturityTicks
import BridgeNotifier.Proofs.Replay
set_option autoImplicit false

namespace BridgeNotifier

/-- The block is deep enough below the stored head, or not above the stored scanned block. -/
def Due (depth : UInt64) (head scanned : Option UInt64) (b : UInt64) : Prop :=
  (∃ h, head = some h ∧ b.toNat + depth.toNat ≤ h.toNat) ∨ ∃ x, scanned = some x ∧ b ≤ x

def Covers (depth : UInt64) (scans : List BlockRange) (head scanned : Option UInt64) : Prop :=
  ∀ b, Due depth head scanned b → ∃ r ∈ scans, b ∈ r

namespace Covers

variable {depth newHead : UInt64} {scans : List BlockRange} {head scanned : Option UInt64}

theorem append (h : Covers depth scans head scanned) (more : List BlockRange) :
    Covers depth (scans ++ more) head scanned := by
  intro b hb
  obtain ⟨r, hr, hbr⟩ := h b hb
  exact ⟨r, List.mem_append_left _ hr, hbr⟩

theorem window (h : Covers depth scans head scanned) (hd : 1 ≤ depth) (hlt : head.getD 0 < newHead)
    {b : UInt64} (hb : b.toNat + depth.toNat ≤ newHead.toNat) :
    ∃ r ∈ scans ++ (matured? (head.getD 0) newHead depth scanned).toList, b ∈ r := by
  have old : Due depth head scanned b →
      ∃ r ∈ scans ++ (matured? (head.getD 0) newHead depth scanned).toList, b ∈ r :=
    h.append _ b
  have known : (∃ r, matured? (head.getD 0) newHead depth scanned = some r ∧ b ∈ r) ∨
      (∃ x, scanned = some x ∧ b ≤ x) ∨ b.toNat + depth.toNat ≤ (head.getD 0).toNat :=
    mem_matured?_or hlt hd hb
  obtain ⟨r, hr, hbr⟩ | hx | ho := known
  · exact ⟨r, List.mem_append_right _ (by simp [hr]), hbr⟩
  · exact old (.inr hx)
  · cases head with
    | some x => exact old (.inl ⟨x, rfl, ho⟩)
    | none =>
      have hd' : 1 ≤ depth.toNat := hd
      have hzero : b.toNat + depth.toNat ≤ 0 := ho
      omega

theorem of_head (old : Covers depth scans head scanned)
    (h : ∀ b : UInt64, b.toNat + depth.toNat ≤ newHead.toNat → ∃ r ∈ scans, b ∈ r) :
    Covers depth scans (some newHead) scanned := by
  rintro b (⟨x, hx, hb⟩ | hb)
  · obtain rfl := Option.some.inj hx
    exact h b hb
  · exact old b (.inr hb)

theorem of_scanned {high : UInt64} (old : Covers depth scans head scanned)
    (h : ∀ b ≤ high, ∃ r ∈ scans, b ∈ r) : Covers depth scans head (some high) := by
  rintro b (hb | ⟨x, hx, hb⟩)
  · exact old b (.inl hb)
  · obtain rfl := Option.some.inj hx
    exact h b hb

end Covers

def maturityScans (ts : List Tick) : List BlockRange :=
  (ts.filter (·.task = .maturity)).flatMap fun t => t.scanning.completed

def maturityPages (ts : List Tick) : List BlockRange :=
  (ts.filter (·.task = .maturity)).flatMap fun t => t.scanning.asked

namespace Setup
open Routine Surroundings Scanning

variable {s : Setup} {depth : UInt64}

abbrev depthScans (depth : UInt64) :
    Surroundings ((String → Option UInt64) × Scanning × Option UInt64) :=
  scanned (Event.depthIn (· = depth)) depthRead

theorem depthScans_shows : (depthScans depth).Shows Prod.fst fun _ _ => True :=
  scanned_shows depthRead_apart fun _ _ _ _ _ => trivial

/-- The scans completed before this tick and by it cover what is due. -/
def Covered (s : Setup) (depth : UInt64) (before : List BlockRange)
    (w : (String → Option UInt64) × Scanning × Option UInt64) : Prop :=
  Covers depth (before ++ w.2.1.completed) (w.1 (s.key .head)) (w.1 (s.key .scanned))

section Covered

variable {before : List BlockRange} {f : String → Option UInt64} {newHead : UInt64}
variable {w : (String → Option UInt64) × Scanning × Option UInt64}

theorem moves_head_covered (hw : Covered s depth before w)
    (window : ∀ b : UInt64, b.toNat + depth.toNat ≤ newHead.toNat →
      ∃ r ∈ before ++ w.2.1.completed, b ∈ r) :
    Shows.Moves (depthScans depth) Prod.fst (Covered s depth before) (s.key .head) newHead w
      fun _ => True := by
  refine ⟨fun _ => trivial, fun _ v hv => ⟨?_, trivial⟩⟩
  have hnotes : v.2 = w.2 := hv.2
  rw [Covered, depthScans_shows.write hv, hnotes, Function.update_self,
    Function.update_of_ne s.scanned_ne_head _ _]
  exact Covers.of_head hw window

theorem ensures_sweepMaturity_covers (hd : 1 ≤ depth)
    (h : Covers depth before (f (s.key .head)) (f (s.key .scanned))) :
    s.sweepMaturity.Ensures (depthScans depth) (Covered s depth before)
      (Contract.scanning fun _ _ => True) (fun _ _ => True) (f, .start, none) fun _ _ => True := by
  have hI : Covered s depth before (f, .start, none) := by
    rw [Covered, Scanning.start, List.append_nil]
    exact h
  refine depthScans_shows.ensures_sweepMaturity hI trivial fun newHead d w hlt hw => ?_
  obtain rfl : d = depth := hw.1.1 d rfl
  obtain rfl : w = (f, .start, some d) := Prod.ext hw.1.2 hw.2
  refine ⟨hI, ?_⟩
  have window : ∀ b : UInt64, b.toNat + d.toNat ≤ newHead.toNat → ∃ r ∈ before ++
      (matured? ((f (s.key .head)).getD 0) newHead d (f (s.key .scanned))).toList, b ∈ r :=
    fun b hb => h.window hd hlt hb
  cases hm : matured? ((f (s.key .head)).getD 0) newHead d (f (s.key .scanned)) with
  | none =>
    rw [hm] at window
    exact moves_head_covered hI window
  | some range =>
    obtain ⟨-, hle, hhigh⟩ := matured?_eq_some_iff.1 hm
    rw [hm] at window
    refine Contract.scans_run hle (.inl rfl) fun summary t ht hc => ?_
    have hscans : t.2.1.completed = [range] := hc.completed
    -- the window is completed here, so the order of the two writes does not matter
    refine ⟨fun _ => moves_head_covered ht (by rw [hscans]; exact window), fun _ u hu => ?_⟩
    have hnotes : u.2 = t.2 := hu.2
    have hIu : Covered s d before u := by
      rw [Covered, depthScans_shows.write hu, hnotes, Function.update_self,
        Function.update_of_ne s.scanned_ne_head.symm _ _]
      refine Covers.of_scanned ht fun b hb => ?_
      have hb' : b.toNat ≤ range.high.toNat := hb
      rw [hscans]
      exact window b (by omega)
    exact ⟨hIu, moves_head_covered hIu (by rw [hnotes, hscans]; exact window)⟩

end Covered

theorem covers_tick (hd : 1 ≤ depth) {before : List BlockRange} {m n : Memory} {es : List Event}
    {p : Program (Except Error Outcome)}
    (h : Covers depth before (m.ints (s.key .head)) (m.ints (s.key .scanned)))
    (run : (s.tick .maturity).run.Leads (shared.only (Event.depthIn (· = depth))) m es p n) :
    Covers depth (before ++ (Tick.scanning ⟨.maturity, es, p.result?⟩).completed)
      (n.ints (s.key .head)) (n.ints (s.key .scanned)) := by
  have noted := (run.map (T := numbers.only (Event.depthIn (· = depth))) Memory.ints
    fun _ _ _ h => ⟨h.1, numbers_of_shared h.2⟩).noted (alongside depthRead) (.start, none)
  have hI : Covered s depth before (m.ints, .start, none) := by
    rw [Covered, Scanning.start, List.append_nil]
    exact h
  have htick := depthScans_shows.ensures_tick (t := .maturity) hI trivial
    (ensures_sweepMaturity_covers hd h)
  have grows : ∀ (g : String → Option UInt64) (o : Scanning)
      (reading : Option (UInt32 × BlockRange × UInt64)) (asked completed : List BlockRange)
      (l : Option UInt64),
      Covers depth (before ++ o.completed) (g (s.key .head)) (g (s.key .scanned)) →
      Covers depth (before ++ (o.completed ++ completed)) (g (s.key .head)) (g (s.key .scanned)) :=
    fun g o _ _ completed _ h => by
      rw [← List.append_assoc]
      exact h.append completed
  have kept := Program.Ensures.invariant htick
    (Contract.scanning_kept depthRead_apart (fun _ _ _ _ _ => trivial) grows) hI noted
  rw [foldl_alongside] at kept
  exact kept

end Setup

/-- Every block that is deep enough is in one scan and no other block in any, and the scanned block
is the last one that is deep enough. -/
structure ScannedOnce (depth : UInt64) (scans pages : List BlockRange)
    (head scanned : Option UInt64) : Prop where
  count : ∀ b : UInt64, scans.countP (b ∈ ·) =
    if b.toNat + depth.toNat ≤ (head.getD 0).toNat then 1 else 0
  pages : ∀ r ∈ pages, r ∈ scans
  scanned : ∀ x, scanned = some x → x.toNat + depth.toNat = (head.getD 0).toNat

namespace ScannedOnce

variable {depth : UInt64} {scans pages : List BlockRange} {head scanned : Option UInt64}

theorem none (hd : 1 ≤ depth) : ScannedOnce depth [] [] none none := by
  have hd' : 1 ≤ depth.toNat := hd
  refine ⟨fun b => ?_, fun r hr => (nomatch hr), fun x hx => (nomatch hx)⟩
  have hzero : ((Option.none : Option UInt64).getD 0).toNat = 0 := rfl
  rw [hzero, if_neg (by omega)]
  rfl

theorem countP_toList (o : Option BlockRange) (b : UInt64) [Decidable (∃ r, o = some r ∧ b ∈ r)] :
    o.toList.countP (b ∈ ·) = if ∃ r, o = some r ∧ b ∈ r then 1 else 0 := by
  cases o with
  | none => simp
  | some r =>
    by_cases h : b ∈ r
    · simp [h]
    · simp [h]

theorem moved (h : ScannedOnce depth scans pages head scanned) (hd : 1 ≤ depth)
    {head' scanned' : Option UInt64} {o : Scanning} {start stop : UInt64}
    (hm : Moved head scanned head' scanned' o start stop depth) :
    ScannedOnce depth (scans ++ o.completed) (pages ++ o.asked) head' scanned' := by
  have hd' : 1 ≤ depth.toNat := hd
  have hlt : start.toNat < stop.toNat := hm.lt
  obtain ⟨rfl, -, hc, ha, rfl, rfl⟩ := hm
  have hhead : ((some stop).getD 0).toNat = stop.toNat := rfl
  have mem : ∀ b : UInt64,
      (∃ r, matured? (head.getD 0) stop depth scanned = some r ∧ b ∈ r) ↔
        b.toNat + depth.toNat ≤ stop.toNat ∧ (head.getD 0).toNat < b.toNat + depth.toNat := by
    intro b
    rw [mem_matured?_iff hlt hd]
    cases hs : scanned with
    | none => rfl
    | some x =>
      have hx := h.scanned x hs
      have hxb : Unreached (head.getD 0) depth b (some x) ↔ x.toNat < b.toNat := Iff.rfl
      rw [hxb]
      omega
  refine ⟨fun b => ?_, fun r hr => ?_, fun x hx => ?_⟩
  · classical
    rw [List.countP_append, h.count b, hc, countP_toList, hhead]
    simp only [mem b]
    split <;> split <;> split <;> omega
  · obtain hr | hr := List.mem_append.1 hr
    · exact List.mem_append_left _ (h.pages r hr)
    · exact List.mem_append_right _ (ha r hr)
  · rw [hhead]
    cases hr : matured? (head.getD 0) stop depth scanned with
    | none =>
      rw [hr] at hx
      have hsum := h.scanned x hx
      have hle : depth ≤ stop := UInt64.le_iff_toNat_le.2 (by omega)
      have hlast : (stop - depth).toNat = stop.toNat - depth.toNat :=
        UInt64.toNat_sub_of_le _ _ hle
      obtain ⟨r, hr', -⟩ := (mem (stop - depth)).2 ⟨by omega, by omega⟩
      rw [hr] at hr'
      cases hr'
    | some r =>
      have hhigh := (matured?_eq_some_iff.1 hr).2.2
      rw [hr, scannedAfter] at hx
      split at hx
      · obtain rfl := Option.some.inj hx
        exact hhigh
      · rename_i hge
        have hsum := h.scanned x hx
        rw [hx] at hge
        have hge' : ¬ x.toNat < r.high.toNat := hge
        omega

end ScannedOnce

theorem maturityScans_concat (ts : List Tick) (es : List Event)
    (r : Option (Except Error Outcome)) : maturityScans (ts ++ [⟨.maturity, es, r⟩]) =
      maturityScans ts ++ (Tick.scanning ⟨.maturity, es, r⟩).completed := by
  simp [maturityScans]

theorem maturityPages_concat (ts : List Tick) (es : List Event)
    (r : Option (Except Error Outcome)) : maturityPages (ts ++ [⟨.maturity, es, r⟩]) =
      maturityPages ts ++ (Tick.scanning ⟨.maturity, es, r⟩).asked := by
  simp [maturityPages]

theorem maturity_concat_of_ne {t : Tick} (ht : t.task ≠ .maturity) (ts : List Tick) :
    maturityScans (ts ++ [t]) = maturityScans ts ∧ maturityPages (ts ++ [t]) = maturityPages ts := by
  simp [maturityScans, maturityPages, ht]

namespace Setup
open Surroundings

variable {s : Setup} {depth : UInt64} {ts : List Tick} {m n : Memory} {es : List Event}
variable {p : Program (Except Error Outcome)} {P : UInt64 → Prop} {t : Task}

theorem maturity_ints_eq (run : (s.tick t).run.Leads (shared.only (Event.depthIn P)) m es p n)
    (ht : t ≠ .maturity) : n.ints (s.key .head) = m.ints (s.key .head) ∧
      n.ints (s.key .scanned) = m.ints (s.key .scanned) := by
  have all : (s.tick t).run.Leads shared m es p n := run.map id fun _ _ _ h => h.2
  exact ⟨ints_of_not_owned all (s.key_not_mem_owned ht),
    ints_of_not_owned all (s.key_not_mem_owned ht)⟩

theorem runs_covers (hd : 1 ≤ depth)
    (run : s.Runs (shared.only (Event.depthIn (· = depth))) .empty ts m) :
    Covers depth (maturityScans ts) (m.ints (s.key .head)) (m.ints (s.key .scanned)) := by
  induction run with
  | start =>
    rintro b (⟨h, hh, -⟩ | ⟨x, hx, -⟩)
    · cases hh
    · cases hx
  | @tick ts w u es p before t run ih =>
    by_cases ht : t = .maturity
    · subst ht
      rw [maturityScans_concat]
      exact covers_tick hd ih run
    · obtain ⟨hh, hs⟩ := maturity_ints_eq run ht
      rw [(maturity_concat_of_ne (t := ⟨t, es, p.result?⟩) ht ts).1, hh, hs]
      exact ih

theorem runs_scannedOnce (hd : 1 ≤ depth)
    (run : s.Runs (shared.only (Event.depthIn (· = depth))) .empty ts m)
    (calm : ∀ t ∈ ts, t.task = .maturity → t.Undisturbed) :
    ScannedOnce depth (maturityScans ts) (maturityPages ts) (m.ints (s.key .head))
      (m.ints (s.key .scanned)) := by
  induction run with
  | start => exact ScannedOnce.none hd
  | @tick ts w u es p before t run ih =>
    have ih := ih fun t ht => calm t (List.mem_append_left _ ht)
    by_cases ht : t = .maturity
    · subst ht
      obtain ⟨o, -, step⟩ := maturityStep run (calm _ (by simp) rfl)
      have still : Still (w.ints (s.key .head)) (w.ints (s.key .scanned)) (u.ints (s.key .head))
          (u.ints (s.key .scanned)) (Tick.scanning ⟨.maturity, es, p.result?⟩) →
          ScannedOnce depth (maturityScans (ts ++ [⟨.maturity, es, p.result?⟩]))
            (maturityPages (ts ++ [⟨.maturity, es, p.result?⟩])) (u.ints (s.key .head))
            (u.ints (s.key .scanned)) := by
        intro h
        rw [maturityScans_concat, maturityPages_concat, h.completed, h.asked, h.head_eq, h.scanned_eq,
          List.append_nil, List.append_nil]
        exact ih
      cases o with
      | locked => exact still step
      | noChange => exact still step
      | advanced start stop dispatched =>
        obtain ⟨d, -, rfl, hm⟩ := step
        rw [maturityScans_concat, maturityPages_concat]
        exact ih.moved hd hm
    · obtain ⟨hh, hs⟩ := maturity_ints_eq run ht
      obtain ⟨hscans, hpages⟩ := maturity_concat_of_ne (t := ⟨t, es, p.result?⟩) ht ts
      rw [hscans, hpages, hh, hs]
      exact ih

/-- With one depth in force, every block that is due is in a completed scan at every point of every
history. If no call of the maturity sweep failed, it is in exactly one, and no page ever asked about
a block that is not due. -/
theorem maturityScans_cover (hd : 1 ≤ depth)
    (run : s.Runs (shared.only (Event.depthIn (· = depth))) .empty ts m) :
    (∀ b, Due depth (m.ints (s.key .head)) (m.ints (s.key .scanned)) b →
      ∃ r ∈ maturityScans ts, b ∈ r) ∧
    ((∀ t ∈ ts, t.task = .maturity → t.Undisturbed) → ∀ b,
      (Due depth (m.ints (s.key .head)) (m.ints (s.key .scanned)) b →
        (maturityScans ts).countP (b ∈ ·) = 1) ∧
      (¬ Due depth (m.ints (s.key .head)) (m.ints (s.key .scanned)) b →
        ∀ r ∈ maturityPages ts, b ∉ r)) := by
  refine ⟨runs_covers hd run, fun calm b => ?_⟩
  have once := runs_scannedOnce hd run calm
  have hd' : 1 ≤ depth.toNat := hd
  have due : Due depth (m.ints (s.key .head)) (m.ints (s.key .scanned)) b ↔
      b.toNat + depth.toNat ≤ ((m.ints (s.key .head)).getD 0).toNat := by
    constructor
    · rintro (⟨h, hh, hb⟩ | ⟨x, hx, hb⟩)
      · rw [hh]
        exact hb
      · have hsum := once.scanned x hx
        have hb' : b.toNat ≤ x.toNat := hb
        omega
    · intro hb
      cases hh : m.ints (s.key .head) with
      | some h => exact .inl ⟨h, rfl, by rwa [hh] at hb⟩
      | none =>
        have hzero : b.toNat + depth.toNat ≤ 0 := by rwa [hh] at hb
        omega
  refine ⟨fun hb => ?_, fun hb r hr hbr => ?_⟩
  · rw [once.count b, if_pos (due.1 hb)]
  · have hpos : 0 < (maturityScans ts).countP (b ∈ ·) :=
      List.countP_pos_iff.2 ⟨r, once.pages r hr, by simpa using hbr⟩
    rw [once.count b, if_neg (fun h => hb (due.2 h))] at hpos
    exact absurd hpos (by omega)

open Simulation

def fourHeads : List Turn :=
  [1, 3, 2, 6].map fun head =>
    ⟨.maturity, fun w => { w with depth := ⟨2⟩, chain := { w.chain with head := head } }⟩

theorem maturityScans_cover_fourHeads :
    maturityScans (play plainSetup 60 fourHeads quietWorld).1 = [⟨0, 1⟩, ⟨2, 4⟩] ∧
    ∀ b, Due 2 (some 6) (some 4) b →
      (∃ r ∈ maturityScans (play plainSetup 60 fourHeads quietWorld).1, b ∈ r) ∧
      (maturityScans (play plainSetup 60 fourHeads quietWorld).1).countP (b ∈ ·) = 1 := by
  have two : ∀ t ∈ (play plainSetup 60 fourHeads quietWorld).1,
      ∀ e ∈ t.events, e.depthIn (· = 2) := by decide +kernel
  have run := (runs_play_shared plainSetup 60 fourHeads quietWorld (by simp [fourHeads])).only two
  obtain ⟨cover, once⟩ := maturityScans_cover (by decide) run
  have head : (play plainSetup 60 fourHeads quietWorld).2.store.memory.ints
      (plainSetup.key .head) = some 6 := by decide +kernel
  have scanned : (play plainSetup 60 fourHeads quietWorld).2.store.memory.ints
      (plainSetup.key .scanned) = some 4 := by decide +kernel
  rw [head, scanned] at cover once
  exact ⟨by decide +kernel, fun b hb => ⟨cover b hb, (once (by decide +kernel) b).1 hb⟩⟩

end Setup
end BridgeNotifier
