import BridgeNotifier.Proofs.Completion
import BridgeNotifier.Proofs.MaturityTicks
import BridgeNotifier.Proofs.Replay
import Mathlib.Data.List.Basic
set_option autoImplicit false

namespace BridgeNotifier
open RecordTable

abbrev Marks := Watermark → Option UInt64

namespace Marks

def set (v : Marks) (k : Watermark) (value : UInt64) : Marks :=
  fun w => if w = k then some value else v w

def raise (v : Marks) (k : Watermark) (value : UInt64) : Marks :=
  if (v k).getD 0 < value then v.set k value else v

variable {v : Marks} {k w : Watermark} {value other : UInt64}

@[simp] theorem set_self (v : Marks) (k : Watermark) (value : UInt64) :
    v.set k value k = some value := by
  simp [set]

theorem set_of_ne (value : UInt64) (h : w ≠ k) : v.set k value w = v w := by
  simp [set, h]

theorem set_set (v : Marks) (k : Watermark) (other value : UInt64) :
    (v.set k other).set k value = v.set k value := by
  funext w
  by_cases h : w = k
  · subst h
    simp
  · simp [set, h]

theorem raise_of_lt (h : (v k).getD 0 < value) : v.raise k value = v.set k value :=
  if_pos h

theorem raise_of_le (h : value ≤ (v k).getD 0) : v.raise k value = v :=
  if_neg (UInt64.not_lt.2 h)

theorem raise_of_ne (h : w ≠ k) : v.raise k value w = v w := by
  unfold raise
  split
  · exact set_of_ne value h
  · rfl

theorem le_raise (v : Marks) (k : Watermark) (value : UInt64) :
    value ≤ (v.raise k value k).getD 0 := by
  by_cases h : (v k).getD 0 < value
  · rw [raise_of_lt h, set_self]
    exact UInt64.le_refl value
  · rw [raise_of_le (UInt64.not_lt.1 h)]
    exact UInt64.not_lt.1 h

theorem raise_raise (v : Marks) (k : Watermark) (value : UInt64) :
    (v.raise k value).raise k value = v.raise k value :=
  raise_of_le (le_raise v k value)

end Marks

namespace Answers

variable (a : Answers)

def windowAt (v : Marks) : Option BlockRange :=
  matured? ((v .head).getD 0) (a.chain .head) a.depth (v .scanned)

def scannedMarks (v : Marks) : Marks :=
  match a.windowAt v with
  | none => v
  | some r => v.raise .scanned r.high

def ceilingOf (r : Role) : UInt64 := a.chain (.lastBlock (a.chain r.latest))

/-- The watermarks after a tick in which nothing goes wrong. -/
def target : Task → Marks → Marks
  | .maturity, v =>
    if a.chain .head ≤ (v .head).getD 0 then v
    else (a.scannedMarks v).raise .head (a.chain .head)
  | .batch r, v =>
    if a.chain r.latest ≤ (v r.batch).getD 0 then v
    else (v.raise r.ceiling (a.ceilingOf r)).raise r.batch (a.chain r.latest)
  | .feed f, v =>
    match v f.watermark with
    | none => v.set f.watermark (largest (f.ids a.table))
    | some _ => v.raise f.watermark (largest (f.ids a.table))

variable {a} {v : Marks}

theorem scannedMarks_of_none (h : a.windowAt v = none) : a.scannedMarks v = v := by
  simp only [scannedMarks, h]

theorem scannedMarks_of_some {r : BlockRange} (h : a.windowAt v = some r) :
    a.scannedMarks v = v.raise .scanned r.high := by
  simp only [scannedMarks, h]

theorem scannedMarks_head (v : Marks) : a.scannedMarks v .head = v .head := by
  cases h : a.windowAt v with
  | none => rw [scannedMarks_of_none h]
  | some r => rw [scannedMarks_of_some h, Marks.raise_of_ne (by decide)]

theorem scannedMarks_scannedMarks (v : Marks) :
    a.scannedMarks (a.scannedMarks v) = a.scannedMarks v := by
  cases first : a.windowAt v with
  | none => rw [scannedMarks_of_none first, scannedMarks_of_none first]
  | some r =>
    cases second : a.windowAt (a.scannedMarks v) with
    | none => rw [scannedMarks_of_none second]
    | some r' =>
      have ends : r'.high = r.high := by
        have h := (matured?_eq_some_iff.1 first).2.2
        have h' := (matured?_eq_some_iff.1 second).2.2
        exact UInt64.toNat_inj.1 (by omega)
      rw [scannedMarks_of_some second, ends, scannedMarks_of_some first, Marks.raise_raise]

theorem target_scannedMarks (h : ¬ a.chain .head ≤ (v .head).getD 0) :
    a.target .maturity (a.scannedMarks v) = a.target .maturity v := by
  simp only [target, scannedMarks_head, scannedMarks_scannedMarks, if_neg h]

theorem target_ceiling {r : Role} (h : ¬ a.chain r.latest ≤ (v r.batch).getD 0) :
    a.target (.batch r) (v.raise r.ceiling (a.ceilingOf r)) = a.target (.batch r) v := by
  have ne : r.batch ≠ r.ceiling := by cases r <;> decide
  simp only [target, Marks.raise_of_ne ne, Marks.raise_raise, if_neg h]

theorem target_page {f : Feed} {last id : UInt64} (h : v f.watermark = some last)
    (lt : last < id) (le : id ≤ largest (f.ids a.table)) :
    a.target (.feed f) (v.set f.watermark id) = a.target (.feed f) v := by
  have below : (v f.watermark).getD 0 < largest (f.ids a.table) := by
    rw [h]
    exact UInt64.lt_of_lt_of_le lt le
  simp only [target, h, Marks.set_self]
  rw [Marks.raise_of_lt below]
  by_cases last : id < largest (f.ids a.table)
  · rw [Marks.raise_of_lt (by simpa using last), Marks.set_set]
  · rw [Marks.raise_of_le (by simpa using UInt64.not_lt.1 last),
      UInt64.le_antisymm le (UInt64.not_lt.1 last)]

theorem target_target (t : Task) (v : Marks) : a.target t (a.target t v) = a.target t v := by
  cases t with
  | maturity =>
    by_cases h : a.chain .head ≤ (v .head).getD 0
    · simp only [target, if_pos h]
    · have arrived : a.target .maturity v = (a.scannedMarks v).raise .head (a.chain .head) := by
        simp only [target, if_neg h]
      rw [arrived, target, if_pos (Marks.le_raise _ _ _)]
  | batch r =>
    by_cases h : a.chain r.latest ≤ (v r.batch).getD 0
    · simp only [target, if_pos h]
    · have arrived : a.target (.batch r) v =
          (v.raise r.ceiling (a.ceilingOf r)).raise r.batch (a.chain r.latest) := by
        simp only [target, if_neg h]
      rw [arrived, target, if_pos (Marks.le_raise _ _ _)]
  | feed f =>
    cases h : v f.watermark with
    | none =>
      simp only [target, h, Marks.set_self]
      exact Marks.raise_of_le (by simp)
    | some last =>
      have arrived : a.target (.feed f) v = v.raise f.watermark (largest (f.ids a.table)) := by
        simp only [target, h]
      have raised := Marks.raise_raise v f.watermark (largest (f.ids a.table))
      have known : ∃ id, v.raise f.watermark (largest (f.ids a.table)) f.watermark = some id := by
        unfold Marks.raise
        split
        · exact ⟨_, Marks.set_self _ _ _⟩
        · exact ⟨last, h⟩
      obtain ⟨id, hid⟩ := known
      rw [arrived]
      simp only [target, hid, raised]

end Answers

def Setup.marks (s : Setup) (ints : String → Option UInt64) : Marks :=
  fun w => ints (s.key w)

namespace Setup

variable {s : Setup} {ints : String → Option UInt64} {k : Watermark} {value : UInt64}

theorem marks_update :
    s.marks (Function.update ints (s.key k) (some value)) = (s.marks ints).set k value := by
  funext w
  by_cases h : w = k
  · subst h
    simp [marks]
  · have ne : s.key w ≠ s.key k := fun hk => h (s.key_inj.1 hk)
    rw [marks, Function.update_of_ne ne _ _, Marks.set_of_ne _ h, marks]

theorem marks_update_average (r : Role) :
    s.marks (Function.update ints (s.estimator r).averageKey (some value)) = s.marks ints := by
  funext w
  exact Function.update_of_ne (s.averageKey_ne_key r w).symm _ _

end Setup

namespace Surroundings
open Routine

abbrev answering (a : Answers) : Surroundings ((String → Option UInt64) × Unit) :=
  (numbers.only a.agrees).noted fun o _ => o

theorem answering_shows (a : Answers) : (answering a).Shows Prod.fst fun _ _ => True :=
  numbered_shows

namespace Shows

variable {σ : Type} {S : Surroundings σ} {ints : σ → String → Option UInt64}
variable {I Q : σ → Prop} {E : Error → σ → Prop} {w : σ} {s : Setup} {k : Watermark}
variable {value : UInt64}

theorem writes_set (hS : S.Shows ints E)
    (h : ∀ t, s.marks (ints t) = (s.marks (ints w)).set k value → I t ∧ Q t) :
    Writes S I (s.key k) value w Q := by
  intro t ht
  apply h
  rw [hS.write ht, Setup.marks_update]

theorem moves_raise (hS : S.Shows ints E)
    (h : ∀ t, s.marks (ints t) = (s.marks (ints w)).raise k value → I t ∧ Q t) :
    Moves S ints I (s.key k) value w Q := by
  refine ⟨fun hle => (h w (Marks.raise_of_le hle).symm).2, fun hlt => hS.writes_set fun t ht => ?_⟩
  exact h t (ht.trans (Marks.raise_of_lt hlt).symm)

theorem writes_average (hS : S.Shows ints E) (r : Role)
    (h : ∀ t, s.marks (ints t) = s.marks (ints w) → I t ∧ Q t) :
    Writes S I (s.estimator r).averageKey value w Q := by
  intro t ht
  apply h
  rw [hS.write ht, Setup.marks_update_average]

end Shows
end Surroundings

namespace Setup
open Routine Surroundings

variable {s : Setup} {a : Answers} {t : Task} {w : (String → Option UInt64) × Unit}

/-- The watermarks of a store from which a tick works towards `goal`. -/
def Aims (s : Setup) (a : Answers) (t : Task) (goal : Marks)
    (w : (String → Option UInt64) × Unit) : Prop :=
  a.target t (s.marks w.1) = goal

def scansOnly : Contract ((String → Option UInt64) × Unit) :=
  .scans (fun _ _ => True) (fun _ _ _ => True) fun _ w t => t = w

theorem scansOnly_kept (I : (String → Option UInt64) × Unit → Prop) :
    scansOnly.Kept (answering a) I := by
  refine Contract.scans_kept (answering_shows a) (fun h => Prod.ext h.1.2 h.2) ?_
  rintro sc offset w x t hI - ⟨⟨-, ht⟩, hu⟩
  obtain rfl : t = w := Prod.ext ht hu
  refine ⟨hI, fun rows _ => ?_⟩
  split
  · rfl
  · exact ⟨trivial, fun _ h => h⟩

theorem Aims.arrived {goal : Marks} {u : (String → Option UInt64) × Unit}
    (hw : Aims s a t goal w) (hu : s.marks u.1 = goal) : Aims s a t goal u := by
  rw [Aims, hu, ← (hw : a.target t (s.marks w.1) = goal), Answers.target_target]

theorem ensures_sweepMaturity_aims {goal : Marks} (hw : Aims s a .maturity goal w) :
    s.sweepMaturity.Ensures (answering a) (Aims s a .maturity goal) scansOnly (fun _ _ => True) w
      fun _ t => s.marks t.1 = goal := by
  have hS := answering_shows a
  refine hS.ensures_sweepMaturity_of_head hw ?_ ?_
  · intro newHead answered hle
    obtain rfl : newHead = a.chain .head := answered.1.1
    have arrived : a.target .maturity (s.marks w.1) = s.marks w.1 := if_pos hle
    exact arrived.symm.trans hw
  · intro newHead depth t answered hlt ht
    obtain rfl : newHead = a.chain .head := answered.1.1
    obtain rfl : depth = a.depth := ht.1.1
    obtain rfl : t = w := Prod.ext ht.1.2 ht.2
    have behind : ¬ a.chain .head ≤ (s.marks t.1 .head).getD 0 := UInt64.not_le.2 hlt
    have headed : ∀ {u : (String → Option UInt64) × Unit},
        s.marks u.1 = a.scannedMarks (s.marks t.1) →
        Shows.Moves (answering a) Prod.fst (Aims s a .maturity goal) (s.key .head) (a.chain .head) u
          fun v => s.marks v.1 = goal := by
      intro u hu
      refine hS.moves_raise fun v hv => ?_
      have arrived : s.marks v.1 = goal := by
        rw [hv, hu, ← (hw : a.target .maturity (s.marks t.1) = goal), Answers.target, if_neg behind]
      exact ⟨hw.arrived arrived, arrived⟩
    refine ⟨hw, ?_⟩
    cases window : a.windowAt (s.marks t.1) with
    | none =>
      have closed : matured? ((t.1 (s.key .head)).getD 0) (a.chain .head) a.depth
        (t.1 (s.key .scanned)) = none := window
      rw [closed]
      exact headed (Answers.scannedMarks_of_none window).symm
    | some r =>
      have opened : matured? ((t.1 (s.key .head)).getD 0) (a.chain .head) a.depth
        (t.1 (s.key .scanned)) = some r := window
      rw [opened]
      refine Contract.scans_run (le_of_matured? opened).1 trivial fun summary u _ same => ?_
      obtain rfl : u = t := same
      refine hS.moves_raise fun v hv => ?_
      have scanned := hv.trans (Answers.scannedMarks_of_some window).symm
      refine ⟨?_, headed scanned⟩
      rw [Aims, scanned, Answers.target_scannedMarks behind]
      exact hw

theorem ensures_sweepBatch_aims {r : Role} {goal : Marks} (hw : Aims s a (.batch r) goal w) :
    (s.sweepBatch r).Ensures (answering a) (Aims s a (.batch r) goal) scansOnly (fun _ _ => True) w
      fun _ t => s.marks t.1 = goal := by
  have hS := answering_shows a
  have settled : ∀ {t : (String → Option UInt64) × Unit}, t = w →
      (s.marks w.1 r.batch).getD 0 < a.chain r.latest →
      Shows.Settles (answering a) Prod.fst (Aims s a (.batch r) goal) s r (a.ceilingOf r)
        (a.chain r.latest) t fun v => s.marks v.1 = goal := by
    rintro t rfl hlt
    have behind : ¬ a.chain r.latest ≤ (s.marks t.1 r.batch).getD 0 := UInt64.not_le.2 hlt
    refine hS.moves_raise fun u hu => ⟨?_, hS.moves_raise fun v hv => ?_⟩
    · rw [Aims, hu, Answers.target_ceiling behind]
      exact hw
    · have arrived : s.marks v.1 = goal := by
        rw [hv, hu, ← (hw : a.target (.batch r) (s.marks t.1) = goal), Answers.target,
          if_neg behind]
      refine ⟨hw.arrived arrived, arrived, fun average => hS.writes_average r fun x hx => ?_⟩
      have still := hx.trans arrived
      exact ⟨hw.arrived still, still⟩
  refine hS.ensures_sweepBatch_of_latest hw ?_ ?_ ?_
  · intro latest answered hle
    obtain rfl : latest = a.chain r.latest := answered.1.1
    have arrived : a.target (.batch r) (s.marks w.1) = s.marks w.1 := if_pos hle
    exact arrived.symm.trans hw
  · intro latest newCeiling answered counted hlt hc
    obtain rfl : latest = a.chain r.latest := answered.1.1
    obtain rfl : newCeiling = a.ceilingOf r := counted.1.1
    have low : (w.1 (s.key r.ceiling)).getD 0 + 1 ≤ a.ceilingOf r := by
      rw [UInt64.le_iff_toNat_le, Word.toNat_succ_of_lt hc]
      exact hc
    exact Contract.scans_run low trivial fun summary t _ same => settled same hlt
  · intro latest newCeiling answered counted hlt _
    obtain rfl : latest = a.chain r.latest := answered.1.1
    obtain rfl : newCeiling = a.ceilingOf r := counted.1.1
    exact settled rfl hlt

def followsTo (s : Setup) (f : Feed) (goal : Marks) :
    Contract ((String → Option UInt64) × Unit) where
  needs
    | .feed s' f' last _, w => s' = s ∧ f' = f ∧ s.marks w.1 f.watermark = some last
    | _, _ => False
  gives
    | .feed .., _, r, t => Ends (fun _ _ => True) (fun _ t => s.marks t.1 = goal) r t
    | _, _, _, _ => False

section Feeds
variable {f : Feed} {goal : Marks} {last dispatched : UInt64}

theorem answering_still {r : Request} {x : r.Reply} {t : (String → Option UInt64) × Unit}
    (h : answering a w ⟨r, x⟩ t) (hr : ∀ c, r ≠ .store c) : t = w :=
  numbered_still h hr

theorem follows_page {α : Type} {rows : List (UInt64 × α)} (kept : a.table.WellKept)
    (hw : Aims s a (.feed f) goal w) (mark : s.marks w.1 f.watermark = some last)
    (hrows : rows.map Prod.fst = ((f.ids a.table).filter (last < ·)).take s.pageSize.toNat)
    (sent : UInt64) :
    Shows.Follows (answering a) Prod.fst (Aims s a (.feed f) goal) (followsTo s f goal)
      (fun _ _ => True) s f ⟨UInt64.ofNat rows.length, rows.getLast?.map Prod.fst, sent⟩ dispatched
      last w (fun _ t => s.marks t.1 = goal) (rows.getLast?.map Prod.fst) := by
  have sorted := Feed.ids_sorted (f := f) kept
  have aimed : a.target (.feed f) (s.marks w.1) = goal := hw
  have length : rows.length ≤ s.pageSize.toNat := by
    rw [← List.length_map Prod.fst, hrows]
    exact List.length_take_le _ _
  cases hi : rows.getLast?.map Prod.fst with
  | none =>
    have empty : rows = [] := by simpa using hi
    have all := largest_le_iff.2 (page_empty hrows s.pageSize_pos empty)
    have short : UInt64.ofNat rows.length < s.pageSize.toUInt64 := by
      rw [short_iff length, empty]
      exact s.pageSize_pos
    simp only [Shows.Follows, Shows.GoesOn, if_pos short]
    rw [← aimed, Answers.target, mark]
    exact (Marks.raise_of_le (by rw [mark]; exact all)).symm
  | some id =>
    obtain ⟨lt, mem, -⟩ := page_ids sorted hrows hi
    have le := le_largest mem
    unfold Shows.Follows
    refine (answering_shows a).moves_raise fun t ht => ?_
    have moved : s.marks t.1 = (s.marks w.1).set f.watermark id :=
      ht.trans (Marks.raise_of_lt (by rw [mark]; exact lt))
    have aims : Aims s a (.feed f) goal t := by
      rw [Aims, moved, Answers.target_page mark lt le]
      exact hw
    refine ⟨aims, ?_⟩
    unfold Shows.GoesOn
    split
    · next short =>
      have all := largest_le_iff.2 (page_exhausts sorted hrows ((short_iff length).1 short) hi)
      have marked : s.marks t.1 f.watermark = some id := by rw [moved, Marks.set_self]
      rw [← (aims : a.target (.feed f) (s.marks t.1) = goal), Answers.target, marked]
      exact (Marks.raise_of_le (by rw [marked]; exact all)).symm
    · refine ⟨⟨rfl, rfl, by rw [moved, Marks.set_self]⟩, fun r u _ hu => ?_⟩
      cases r with
      | ok x => exact hu
      | error e => exact hu

theorem feedRound_aims (kept : a.table.WellKept) (hw : Aims s a (.feed f) goal w)
    (mark : s.marks w.1 f.watermark = some last) :
    (s.feedRound f last dispatched).Ensures (answering a) (Aims s a (.feed f) goal)
      (followsTo s f goal) (fun _ _ => True) w fun _ t => s.marks t.1 = goal := by
  have hS := answering_shows a
  have offered : ∀ {d : Dispatcher} {ns : List Notice} {Q : UInt64 → _ → Prop}, (∀ n, Q n w) →
      (offerAll d ns).Ensures (answering a) (Aims s a (.feed f) goal) (followsTo s f goal) w Q := by
    intro d ns Q hQ
    refine (hS.ensures_offerAll_of_silent (answering_still · nofun) hw).mono ?_
    rintro n t rfl
    exact hQ n
  refine hS.ensures_feedRound hw ?_
  cases f with
  | deposits =>
    refine Shows.ensures_depositPage fun x t ht => ?_
    obtain rfl := answering_still ht nofun
    refine ⟨hw, ?_⟩
    cases x with
    | error e => trivial
    | ok rows =>
      have answer : rows = a.table.answer (.depositsAfter last s.pageSize) := ht.1.1
      have hrows := answer ▸ deposit_ids a.table last s.pageSize
      exact offered fun sent => follows_page kept hw mark hrows sent
  | claims =>
    refine Shows.ensures_claimPage fun x t ht => ?_
    obtain rfl := answering_still ht nofun
    refine ⟨hw, ?_⟩
    cases x with
    | error e => trivial
    | ok rows =>
      have answer : rows = a.table.answer (.claimsAfter last s.pageSize) := ht.1.1
      have hrows := answer ▸ claim_ids a.table last s.pageSize
      refine Routine.Ensures.mono (hS.ensures_announceClaims (J := fun _ u => u = t) ?_ hw rfl) ?_
      · rintro id c rest u hu rfl x v hv
        obtain rfl := answering_still hv nofun
        refine ⟨hu, Contract.ends_of_forall fun o => ⟨fun _ => rfl, fun d _ => ⟨fun _ => rfl, ?_⟩⟩⟩
        intro _ z hz
        obtain rfl := answering_still hz nofun
        exact ⟨hu, rfl⟩
      · rintro sent u rfl
        exact follows_page kept hw mark hrows sent

theorem followsTo_kept (kept : a.table.WellKept) :
    (followsTo s f goal).Kept (answering a) (Aims s a (.feed f) goal) := by
  rintro (⟨sc, offset, summary⟩ | ⟨s', f', last, dispatched⟩ | ⟨l, deadline⟩ | ⟨s', t, i, deadline⟩)
    w hw hn
  · exact hn.elim
  · obtain ⟨rfl, rfl, mark⟩ := hn
    exact feedRound_aims kept hw mark
  · exact hn.elim
  · exact hn.elim

theorem ensures_sweepFeed_aims (hw : Aims s a (.feed f) goal w) :
    (s.sweepFeed f).Ensures (answering a) (Aims s a (.feed f) goal) (followsTo s f goal)
      (fun _ _ => True) w fun _ t => s.marks t.1 = goal := by
  have hS := answering_shows a
  have aimed : a.target (.feed f) (s.marks w.1) = goal := hw
  refine hS.ensures_sweepFeed hw (fun unset => ?_) fun start set => ?_
  · have unset' : s.marks w.1 f.watermark = none := unset
    have seeded : ∀ {latest : UInt64}, latest = largest (f.ids a.table) →
        ((w.1 (s.key f.watermark)).isSome = true → s.marks w.1 = goal) ∧
        (w.1 (s.key f.watermark) = none → Shows.Writes (answering a) (Aims s a (.feed f) goal)
          (s.key f.watermark) latest w fun t => s.marks t.1 = goal) := by
      rintro _ rfl
      refine ⟨fun set => ?_, fun _ => hS.writes_set fun t ht => ?_⟩
      · rw [unset] at set
        cases set
      · have arrived : s.marks t.1 = goal := by rw [ht, ← aimed, Answers.target, unset']
        exact ⟨hw.arrived arrived, arrived⟩
    cases f with
    | deposits =>
      refine ensures_records fun x t ht => ?_
      obtain rfl := answering_still ht nofun
      refine ⟨hw, ?_⟩
      cases x with
      | error e => trivial
      | ok latest => exact seeded ht.1.1
    | claims =>
      refine ensures_records fun x t ht => ?_
      obtain rfl := answering_still ht nofun
      refine ⟨hw, ?_⟩
      cases x with
      | error e => trivial
      | ok latest => exact seeded ht.1.1
  · refine ⟨⟨rfl, rfl, set⟩, fun r t _ ht => ?_⟩
    cases r with
    | ok x => exact ht
    | error e => exact ht

end Feeds

variable {m n : Memory} {es : List Event} {p : Program (Except Error Outcome)}

/-- A tick leaves the store on the way to where it was going, or there if it came to its end. -/
theorem target_of_leads (kept : a.table.WellKept)
    (run : (s.tick t).run.Leads (shared.only a.agrees) m es p n) :
    a.target t (s.marks n.ints) = a.target t (s.marks m.ints) ∧
      ∀ o, p.result? = some (.ok o) → o ≠ .locked →
        s.marks n.ints = a.target t (s.marks m.ints) := by
  have seen := run.map (T := numbers.only a.agrees) Memory.ints
    fun _ _ _ h => ⟨h.1, numbers_of_shared h.2⟩
  have noted := seen.noted (fun (o : Unit) _ => o) ()
  have aims : Aims s a t (a.target t (s.marks m.ints)) (m.ints, ()) := rfl
  have swept : ∃ C : Contract ((String → Option UInt64) × Unit),
      C.Kept (answering a) (Aims s a t (a.target t (s.marks m.ints))) ∧
      (s.sweep t).Ensures (answering a) (Aims s a t (a.target t (s.marks m.ints))) C
        (fun _ _ => True) (m.ints, ()) fun _ u => s.marks u.1 = a.target t (s.marks m.ints) := by
    cases t with
    | maturity => exact ⟨scansOnly, scansOnly_kept _, ensures_sweepMaturity_aims aims⟩
    | batch r => exact ⟨scansOnly, scansOnly_kept _, ensures_sweepBatch_aims aims⟩
    | feed f => exact ⟨followsTo s f _, followsTo_kept kept, ensures_sweepFeed_aims aims⟩
  obtain ⟨C, hC, hsweep⟩ := swept
  have htick := (answering_shows a).ensures_tick
    (Q := fun o u => o ≠ .locked → s.marks u.1 = a.target t (s.marks m.ints)) aims
    (fun h => absurd rfl h) (hsweep.mono fun _ _ h _ => h)
  have always : Aims s a t (a.target t (s.marks m.ints)) (n.ints, _) :=
    Program.Ensures.invariant htick hC aims noted
  refine ⟨always, fun o ho unlocked => ?_⟩
  obtain rfl := Program.eq_done_of_result? ho
  have hend := Program.Ensures.result htick hC aims noted
  exact hend unlocked

theorem target_of_runs (kept : a.table.WellKept) {ts : List Tick}
    (run : s.Runs (shared.only a.agrees) m ts n) (same : ∀ tick ∈ ts, tick.task = t) :
    a.target t (s.marks n.ints) = a.target t (s.marks m.ints) := by
  induction run with
  | start => rfl
  | @tick ts w u es p before t' run ih =>
    obtain rfl : t' = t := same ⟨t', es, p.result?⟩ (by simp)
    rw [(target_of_leads kept run).1, ih fun tick ht => same tick (by simp [ht])]

/-- After ticks that failed or were dropped at any point, one that comes to its end leaves the
watermarks where it would have left them without the others. -/
theorem watermarks_of_retries (kept : a.table.WellKept) {ts : List Tick} {o : Outcome}
    (run : s.Runs (shared.only a.agrees) m ts n) (same : ∀ tick ∈ ts, tick.task = t)
    (ended : ts.getLast?.bind Tick.result = some (.ok o)) (unlocked : o ≠ .locked) :
    (∃ es o' u, (s.tick t).run.Leads (calm a) m es (.done (.ok o')) u ∧ o' ≠ .locked) ∧
      ∀ es o' u, (s.tick t).run.Leads (calm a) m es (.done (.ok o')) u → o' ≠ .locked →
        ∀ w, n.ints (s.key w) = u.ints (s.key w) := by
  constructor
  · obtain ⟨es, r, u, single, o', rfl, free⟩ := succeeds_tick (s := s) kept t m
    exact ⟨es, o', u, single, free⟩
  · intro es o' u single free w
    have arrived : s.marks u.ints = a.target t (s.marks m.ints) :=
      (target_of_leads kept (single.map id fun _ _ _ h => ⟨h.1.1, h.2⟩)).2 o' rfl free
    cases run with
    | start => cases ended
    | @tick ts w' n es p before t' last =>
      obtain rfl : t' = t := same ⟨t', es, p.result?⟩ (by simp)
      have result : p.result? = some (.ok o) := by simpa using ended
      have final : s.marks n.ints = a.target t' (s.marks w'.ints) :=
        (target_of_leads kept last).2 o result unlocked
      have way : a.target t' (s.marks w'.ints) = a.target t' (s.marks m.ints) :=
        target_of_runs kept before fun tick ht => same tick (by simp [ht])
      exact congrFun (final.trans (way.trans arrived.symm)) w

open Simulation

/-- The window is recorded, but the head cannot be written at first. -/
def headRefused : List Turn := [
  ⟨.maturity, fun w => { w with
    store := { w.store with refused := [onePerPage.key .head] }
    chain := { w.chain with head := 100 } }⟩,
  ⟨.maturity, id⟩]

def headAt100 : Answers := ⟨fun _ => 100, twoDeposits, 64⟩

theorem watermarks_of_headRefused :
    (play onePerPage 60 headRefused depositWorld).1.map Tick.result =
      [some (.error (FaultyStore.refusal (onePerPage.key .head))), some (.ok (.advanced 0 100 0))] ∧
    ∀ es o u, (onePerPage.tick .maturity).run.Leads (calm headAt100) .empty es (.done (.ok o)) u →
      o ≠ .locked → u.ints (onePerPage.key .head) = some 100 ∧
        u.ints (onePerPage.key .scanned) = some 36 := by
  have results : (play onePerPage 60 headRefused depositWorld).1.map Tick.result =
      [some (.error (FaultyStore.refusal (onePerPage.key .head))),
        some (.ok (.advanced 0 100 0))] := by decide +kernel
  have answers : ∀ tick ∈ (play onePerPage 60 headRefused depositWorld).1, ∀ e ∈ tick.events,
      headAt100.agrees e := by decide +kernel
  have run := (runs_play_shared onePerPage 60 headRefused depositWorld
    (by simp [headRefused])).only answers
  have tasks : ∀ tick ∈ (play onePerPage 60 headRefused depositWorld).1,
      tick.task = .maturity := by decide +kernel
  have ended : (play onePerPage 60 headRefused depositWorld).1.getLast?.bind Tick.result =
      some (.ok (.advanced 0 100 0)) := by decide +kernel
  have same := (watermarks_of_retries wellKept_twoDeposits run tasks ended nofun).2
  have head : (play onePerPage 60 headRefused depositWorld).2.store.memory.ints
      (onePerPage.key .head) = some 100 := by decide +kernel
  have scanned : (play onePerPage 60 headRefused depositWorld).2.store.memory.ints
      (onePerPage.key .scanned) = some 36 := by decide +kernel
  exact ⟨results, fun es o u single free =>
    ⟨(same es o u single free .head).symm.trans head,
      (same es o u single free .scanned).symm.trans scanned⟩⟩

end Setup
end BridgeNotifier
