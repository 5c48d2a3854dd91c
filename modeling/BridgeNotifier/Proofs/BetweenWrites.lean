import BridgeNotifier.Proofs.Phases
import BridgeNotifier.Proofs.Retries
set_option autoImplicit false

namespace BridgeNotifier

def Request.number? : Request → Option String
  | .store (.getInt key) | .store (.setInt key _) => some key
  | _ => none

/-- How far a tick came that moves two watermarks one after the other. -/
inductive Progress where
  | before
  | between
  | cut
  deriving DecidableEq

namespace Progress
variable {first second : String} {e : Event}

def next (first second : String) : Progress → Event → Progress
  | before, e => if e.request.number? = some first then between else before
  | between, e => if e.request.number? = some second ∧ e.error?.isSome = true then cut else between
  | cut, _ => cut

theorem next_of_none (stage : Progress) (h : e.request.number? = none) :
    stage.next first second e = stage := by
  cases stage <;> simp [next, h]

theorem next_before (h : e.request.number? ≠ some first) : before.next first second e = before :=
  if_neg h

theorem next_between (h : e.request.number? ≠ some second ∨ e.error? = none) :
    between.next first second e = between := by
  apply if_neg
  rintro ⟨same, failed⟩
  rcases h with other | fine
  · exact other same
  · simp [fine] at failed

theorem foldl_cut (es : List Event) : es.foldl (next first second) cut = cut := by
  induction es with
  | nil => rfl
  | cons e es ih => exact ih

theorem foldl_between (es : List Event) : es.foldl (next first second) between = cut ↔
    ∃ e ∈ es, e.request.number? = some second ∧ e.error?.isSome = true := by
  induction es with
  | nil => simp
  | cons e es ih =>
    by_cases h : e.request.number? = some second ∧ e.error?.isSome = true
    · have last : between.next first second e = cut := if_pos h
      simp [last, foldl_cut, h]
    · have stay : between.next first second e = between := if_neg h
      rw [List.foldl_cons, stay, ih, List.exists_mem_cons_iff, or_iff_right h]

end Progress

def CutBetween (first second : String) (es : List Event) : Prop :=
  ∃ e e', [e, e'].Sublist es ∧ e.request.number? = some first ∧
    e'.request.number? = some second ∧ e'.error?.isSome = true

theorem cutBetween_iff {first second : String} (es : List Event) :
    CutBetween first second es ↔ es.foldl (Progress.next first second) .before = .cut := by
  induction es with
  | nil => simp [CutBetween]
  | cons e es ih =>
    by_cases h : e.request.number? = some first
    · have start : Progress.before.next first second e = .between := if_pos h
      rw [List.foldl_cons, start, Progress.foldl_between]
      constructor
      · rintro ⟨e₁, e₂, sub, -, key, failed⟩
        cases sub with
        | cons _ sub => exact ⟨e₂, sub.subset (by simp), key, failed⟩
        | cons_cons _ sub => exact ⟨e₂, sub.subset (by simp), key, failed⟩
      · rintro ⟨e', mem, key, failed⟩
        exact ⟨e, e', .cons_cons e (List.singleton_sublist.2 mem), h, key, failed⟩
    · rw [List.foldl_cons, Progress.next_before h, ← ih]
      constructor
      · rintro ⟨e₁, e₂, sub, key, rest⟩
        cases sub with
        | cons _ sub => exact ⟨e₁, e₂, sub, key, rest⟩
        | cons_cons _ sub => exact absurd key h
      · rintro ⟨e₁, e₂, sub, rest⟩
        exact ⟨e₁, e₂, sub.cons e, rest⟩

instance (first second : String) (es : List Event) : Decidable (CutBetween first second es) :=
  decidable_of_iff _ (cutBetween_iff es).symm

/-- The tasks that move two watermarks in a tick, the second one to what a chain answers. -/
inductive MovesTwo : Task → Watermark → Watermark → ChainCall → Prop where
  | maturity : MovesTwo .maturity .scanned .head .head
  | batch (r : Role) : MovesTwo (.batch r) r.ceiling r.batch r.latest

namespace Answers

variable (a : Answers)

def halfway : Task → Marks → Marks
  | .maturity, v => a.scannedMarks v
  | .batch r, v => v.raise r.ceiling (a.ceilingOf r)
  | .feed _, v => v

end Answers

namespace Surroundings

variable {a : Answers} {first second : String}
variable {w t : (String → Option UInt64) × Progress}

abbrev staged (a : Answers) (first second : String) :
    Surroundings ((String → Option UInt64) × Progress) :=
  (numbers.only a.agrees).noted (Progress.next first second)

theorem staged_still {e : Event} (h : staged a first second w e t)
    (he : e.request.number? = none) : t = w := by
  obtain ⟨⟨-, hn⟩, note⟩ := h
  refine Prod.ext ?_ (note.trans (Progress.next_of_none _ he))
  obtain ⟨r, x⟩ := e
  cases r with
  | store c =>
    cases c with
    | getInt key | setInt key value => cases he
    | _ => exact hn
  | _ => exact hn

theorem staged_read {key : String} {x : Except Error (Option UInt64)}
    (h : staged a first second w ⟨.store (.getInt key), x⟩ t) :
    t = (w.1, w.2.next first second ⟨.store (.getInt key), x⟩) ∧ ∀ v, x = .ok v → v = w.1 key := by
  obtain ⟨⟨-, hn⟩, note⟩ := h
  cases x with
  | ok v =>
    refine ⟨Prod.ext hn.2 note, fun v' hv => ?_⟩
    cases hv
    exact hn.1
  | error err => exact ⟨Prod.ext hn note, nofun⟩

end Surroundings

namespace Setup
open Routine Surroundings

variable {s : Setup} {a : Answers} {t : Task} {first second : Watermark} {G : Marks → Prop}
variable {w : (String → Option UInt64) × Progress}
variable {C : Contract ((String → Option UInt64) × Progress)}

def Halted (s : Setup) (G : Marks → Prop) (w : (String → Option UInt64) × Progress) : Prop :=
  w.2 = .cut → G (s.marks w.1)

theorem halted_of_ne (h : w.2 ≠ .cut) : s.Halted G w :=
  fun hw => absurd hw h

theorem number?_key_ne {k : Watermark} (h : k ≠ first) {x : Except Error (Option UInt64)} :
    (Event.mk (.store (.getInt (s.key k))) x).request.number? ≠ some (s.key first) := by
  intro same
  exact h (s.key_inj.1 (Option.some.inj same))

section Rules
variable {k : Watermark} {value : UInt64}

abbrev Stages (s : Setup) (a : Answers) (first second : Watermark) (G : Marks → Prop)
    (C : Contract ((String → Option UInt64) × Progress)) {α : Type} (p : Routine α)
    (w : (String → Option UInt64) × Progress)
    (Q : α → (String → Option UInt64) × Progress → Prop) : Prop :=
  p.Ensures (staged a (s.key first) (s.key second)) (s.Halted G) C (fun _ _ => True) w Q

theorem stages_get? {Q : Option UInt64 → (String → Option UInt64) × Progress → Prop}
    (hI : ∀ x, s.Halted G
      (w.1, w.2.next (s.key first) (s.key second) ⟨.store (.getInt (s.key k)), x⟩))
    (hQ : ∀ x, x = w.1 (s.key k) →
      Q x (w.1, w.2.next (s.key first) (s.key second) ⟨.store (.getInt (s.key k)), .ok x⟩)) :
    s.Stages a first second G C (Checkpoint.get? s.config.namespaceName k) w Q := by
  refine ensures_store fun x t ht => ?_
  obtain ⟨rfl, read⟩ := staged_read ht
  refine ⟨hI x, ?_⟩
  cases x with
  | ok v => exact hQ v (read v rfl)
  | error err => trivial

theorem stages_get_before {Q : UInt64 → (String → Option UInt64) × Progress → Prop}
    (hw : w.2 = .before) (hk : k ≠ first) (hQ : Q ((w.1 (s.key k)).getD 0) w) :
    s.Stages a first second G C (Checkpoint.get s.config.namespaceName k) w Q := by
  have still : ∀ x : Except Error (Option UInt64), (w.1, w.2.next (s.key first) (s.key second)
      ⟨.store (.getInt (s.key k)), x⟩) = w := by
    intro x
    rw [hw, Progress.next_before (number?_key_ne hk), ← hw]
  refine ensures_bind (stages_get? (fun x => ?_) ?_)
  · rw [still]
    exact halted_of_ne (by simp [hw])
  · rintro x rfl
    rw [still]
    exact ensures_pure hQ

theorem stages_get?_first {Q : Option UInt64 → (String → Option UInt64) × Progress → Prop}
    (hw : w.2 = .before) (hQ : Q (w.1 (s.key first)) (w.1, .between)) :
    s.Stages a first second G C (Checkpoint.get? s.config.namespaceName first) w Q := by
  have asked : ∀ x : Except Error (Option UInt64), w.2.next (s.key first) (s.key second)
      ⟨.store (.getInt (s.key first)), x⟩ = .between := by
    intro x
    rw [hw]
    exact if_pos rfl
  refine stages_get? (fun x => ?_) ?_
  · rw [asked]
    exact halted_of_ne nofun
  · rintro x rfl
    rw [asked]
    exact hQ

/-- Only a call on the second watermark may leave the tick cut short. -/
theorem stages_advance {Q : Bool → (String → Option UInt64) × Progress → Prop} (hw : w.2 = .between)
    (goal : k = second → G (s.marks w.1))
    (moved : ∀ b t, t.2 = .between → s.marks t.1 = (s.marks w.1).raise k value → Q b t) :
    s.Stages a first second G C (Checkpoint.advance s.config.namespaceName k value) w Q := by
  have failed : ∀ {r : Request} {x : r.Reply}, r.number? = some (s.key k) →
      s.Halted G (w.1, w.2.next (s.key first) (s.key second) ⟨r, x⟩) := by
    intro r x hr hcut
    apply goal
    by_contra other
    rw [hw, Progress.next_between (.inl fun same => other (s.key_inj.1 ?_))] at hcut
    · cases hcut
    · exact Option.some.inj (hr.symm.trans same)
  refine ensures_bind (ensures_bind (stages_get? (fun x => failed rfl) ?_))
  rintro x rfl
  have same : (w.1, w.2.next (s.key first) (s.key second)
      ⟨.store (.getInt (s.key k)), .ok (w.1 (s.key k))⟩) = w := by
    rw [hw, Progress.next_between (.inr rfl), ← hw]
  rw [same]
  refine ensures_pure ?_
  by_cases lower : value < (w.1 (s.key k)).getD 0
  · simp only [if_pos lower]
    exact ensures_pure (moved _ w hw (Marks.raise_of_le (UInt64.le_of_lt lower)).symm)
  by_cases equal : value = (w.1 (s.key k)).getD 0
  · simp only [if_neg lower, if_pos equal]
    exact ensures_pure (moved _ w hw (Marks.raise_of_le (UInt64.le_of_eq equal)).symm)
  simp only [if_neg lower, if_neg equal]
  have higher : (w.1 (s.key k)).getD 0 < value :=
    UInt64.lt_of_le_of_ne (UInt64.not_lt.1 lower) (Ne.symm equal)
  refine ensures_bind (ensures_store fun x t ht => ?_)
  obtain ⟨⟨-, hn⟩, note⟩ := ht
  cases x with
  | ok v =>
    have stage : t.2 = .between := by
      rw [note, hw]
      exact Progress.next_between (.inr rfl)
    have raised : s.marks t.1 = (s.marks w.1).raise k value := by
      have written : t.1 = Function.update w.1 (s.key k) (some value) := hn
      rw [written, marks_update, Marks.raise_of_lt higher]
    exact ⟨halted_of_ne (by simp [stage]), ensures_pure (moved _ t stage raised)⟩
  | error err =>
    obtain rfl : t = (w.1, w.2.next (s.key first) (s.key second) _) := Prod.ext hn note
    exact ⟨failed rfl, trivial⟩

end Rules

section Phases
variable {G : Marks → Prop}

def still (s : Setup) (a : Answers) (first second : Watermark) (G : Marks → Prop)
    (w : (String → Option UInt64) × Progress) (h : w.2 ≠ .cut) :
    Phase (staged a (s.key first) (s.key second)) where
  may r := r.number? = none
  holds v := v = w
  always := s.Halted G
  step := by
    rintro _ e v rfl he ht
    obtain rfl := staged_still ht he
    exact ⟨halted_of_ne h, fun _ => rfl⟩

def closing (s : Setup) (a : Answers) (first second : Watermark) (G : Marks → Prop) :
    Phase (staged a (s.key first) (s.key second)) where
  may r := r.number? ≠ some (s.key second)
  holds v := v.2 = .between
  always := s.Halted G
  step := by
    intro w e v hw he ht
    have stage : v.2 = .between := by
      rw [ht.2, hw]
      exact Progress.next_between (.inl he)
    exact ⟨halted_of_ne (by simp [stage]), fun _ => stage⟩

abbrev scanning (s : Setup) (a : Answers) (first second : Watermark) (G : Marks → Prop)
    (ints : String → Option UInt64) : Contract ((String → Option UInt64) × Progress) :=
  (still s a first second G (ints, .between) nofun).loops

variable {ints : String → Option UInt64}

theorem scanning_kept : (scanning s a first second G ints).Kept
    (staged a (s.key first) (s.key second)) (s.Halted G) :=
  Phase.loops_kept (g := still s a first second G (ints, .between) nofun)

theorem stages_scan {sc : Scan} {Q : ScanSummary → (String → Option UInt64) × Progress → Prop}
    (hQ : ∀ summary, Q summary (ints, .between)) :
    s.Stages a first second G (scanning s a first second G ints) sc.run (ints, .between) Q := by
  have quiet : ∀ r : Request, r.isScanning = true → r.number? = none := by
    intro r hr
    cases r with
    | store c => cases hr
    | _ => rfl
  refine Routine.Ensures.mono
    (Phase.passes_scan (g := still s a first second G (ints, .between) nofun) quiet _ rfl) ?_
  rintro summary _ rfl
  exact hQ summary

theorem stages_chain {c : ChainCall} {Q : UInt64 → (String → Option UInt64) × Progress → Prop}
    (hw : w.2 ≠ .cut) (hQ : Q (a.chain c) w) :
    s.Stages a first second G C (Routine.chain c) w Q := by
  intro x t ht
  obtain rfl := staged_still ht rfl
  refine ⟨halted_of_ne hw, ?_⟩
  cases x with
  | ok v =>
    obtain rfl : v = a.chain c := ht.1.1
    exact hQ
  | error err => trivial

theorem closes {α : Type} {p : Routine α} (hw : w.2 = .between)
    (h : (closing s a first second G).Passes C p) :
    s.Stages a first second G C p w fun _ _ => True :=
  (h w hw).mono fun _ _ _ => trivial

def Left (a : Answers) (t : Task) (second : Watermark) (c : ChainCall) (v v' : Marks) : Prop :=
  v' = a.halfway t v ∧ (v second).getD 0 < a.chain c

theorem begins_sweepMaturity : (still s a .scanned .head
      (Left a .maturity .head .head (s.marks ints)) (ints, .before) nofun).Begins
    (scanning s a .scanned .head (Left a .maturity .head .head (s.marks ints)) ints)
    s.sweepMaturity := by
  rintro _ rfl
  refine ensures_bind (stages_get_before rfl nofun ?_)
  refine ensures_bind (stages_chain nofun ?_)
  by_cases hle : a.chain .head ≤ (ints (s.key .head)).getD 0
  · simp only [if_pos hle]
    exact ensures_pure trivial
  simp only [if_neg hle]
  refine ensures_bind (ensures_lift fun depth t ht => ?_)
  obtain rfl : depth = a.depth := ht.1.1
  obtain rfl := staged_still ht rfl
  refine ⟨halted_of_ne nofun, ensures_bind (stages_get?_first rfl ?_)⟩
  have headed : ∀ (n : UInt64) (t : (String → Option UInt64) × Progress), t.2 = .between →
      s.marks t.1 = a.scannedMarks (s.marks ints) →
      s.Stages a .scanned .head (Left a .maturity .head .head (s.marks ints))
        (scanning s a .scanned .head (Left a .maturity .head .head (s.marks ints)) ints)
        (s.recordHead ((ints (s.key .head)).getD 0) (a.chain .head) n) t fun _ _ => True := by
    intro n t ht marks
    refine ensures_bind (stages_advance ht (fun _ => ⟨marks, UInt64.not_le.1 hle⟩) ?_)
    intro _ u hu _
    exact closes hu (Phase.passes_bind (Phase.passes_measure nofun) fun _ => Phase.passes_pure)
  cases window : a.windowAt (s.marks ints) with
  | none =>
    have none : matured? ((ints (s.key .head)).getD 0) (a.chain .head) a.depth
        (ints (s.key .scanned)) = none := window
    rw [none]
    exact ensures_bind (ensures_pure (headed 0 _ rfl (Answers.scannedMarks_of_none window).symm))
  | some r =>
    have some : matured? ((ints (s.key .head)).getD 0) (a.chain .head) a.depth
        (ints (s.key .scanned)) = some r := window
    rw [some]
    refine ensures_bind (stages_scan fun summary => ?_)
    refine ensures_bind (stages_advance rfl (fun same => nomatch same) ?_)
    intro _ u hu raised
    refine ensures_bind (ensures_pure (headed _ u hu ?_))
    rw [raised, Answers.scannedMarks_of_some window]

theorem begins_sweepBatch (r : Role) : (still s a r.ceiling r.batch
      (Left a (.batch r) r.batch r.latest (s.marks ints)) (ints, .before) nofun).Begins
    (scanning s a r.ceiling r.batch (Left a (.batch r) r.batch r.latest (s.marks ints)) ints)
    (s.sweepBatch r) := by
  have apart : r.batch ≠ r.ceiling := by cases r <;> decide
  rintro _ rfl
  refine ensures_bind (stages_chain nofun ?_)
  refine ensures_bind (stages_get_before rfl apart ?_)
  by_cases hle : a.chain r.latest ≤ (ints (s.key r.batch)).getD 0
  · simp only [if_pos hle]
    exact ensures_pure trivial
  simp only [if_neg hle]
  refine ensures_bind (stages_chain nofun ?_)
  refine ensures_bind (ensures_bind (stages_get?_first rfl (ensures_pure ?_)))
  have window : ∀ now, (Request.store (.push (s.estimator r).windowKey now)).number? ≠
      some (s.key r.batch) := nofun
  have average : ∀ v, (Request.store (.setInt (s.estimator r).averageKey v)).number? ≠
      some (s.key r.batch) := fun v same => s.averageKey_ne_key r r.batch (Option.some.inj same)
  have recorded : ∀ (n : UInt64) (t : (String → Option UInt64) × Progress), t.2 = .between →
      s.marks t.1 = a.halfway (.batch r) (s.marks ints) →
      s.Stages a r.ceiling r.batch (Left a (.batch r) r.batch r.latest (s.marks ints))
        (scanning s a r.ceiling r.batch (Left a (.batch r) r.batch r.latest (s.marks ints)) ints)
        (s.recordBatch r ((ints (s.key r.batch)).getD 0) (a.chain r.latest) n) t
        fun _ _ => True := by
    intro n t ht marks
    refine ensures_bind (stages_advance ht (fun _ => ⟨marks, UInt64.not_le.1 hle⟩) ?_)
    intro _ u hu _
    refine closes hu (Phase.passes_bind (Phase.passes_measure nofun) fun _ => ?_)
    exact Phase.passes_bind
      (Phase.passes_recordDuration nofun window nofun average (fun _ => nofun) nofun)
      fun _ => Phase.passes_pure
  have settled : ∀ n : UInt64,
      s.Stages a r.ceiling r.batch (Left a (.batch r) r.batch r.latest (s.marks ints))
        (scanning s a r.ceiling r.batch (Left a (.batch r) r.batch r.latest (s.marks ints)) ints)
        (s.settleBatch r (a.ceilingOf r) ((ints (s.key r.batch)).getD 0) (a.chain r.latest) n)
        (ints, .between) fun _ _ => True := by
    intro n
    refine ensures_bind (stages_advance rfl (fun same => absurd same.symm apart) ?_)
    intro moved u hu raised
    cases moved with
    | false => exact recorded n u hu raised
    | true =>
      refine ensures_bind (ensures_lift fun x t ht => ?_)
      obtain rfl := staged_still ht rfl
      exact ⟨halted_of_ne (by simp [hu]), recorded n t hu raised⟩
  by_cases hc : (ints (s.key r.ceiling)).getD 0 < a.chain (.lastBlock (a.chain r.latest))
  · simp only [if_pos hc]
    exact ensures_bind (stages_scan fun summary => ensures_bind (ensures_pure (settled _)))
  · simp only [if_neg hc]
    exact ensures_bind (ensures_pure (settled 0))

end Phases

variable {m n n' u : Memory} {es : List Event} {p : Program (Except Error Outcome)} {o : Outcome}
variable {c : ChainCall}

theorem left_of_cut (two : MovesTwo t first second c)
    (run : (s.tick t).run.Leads (shared.only a.agrees) m es p n)
    (cut : CutBetween (s.key first) (s.key second) es) :
    Left a t second c (s.marks m.ints) (s.marks n.ints) := by
  have seen := run.map (T := numbers.only a.agrees) Memory.ints
    fun _ _ _ h => ⟨h.1, numbers_of_shared h.2⟩
  have noted := seen.noted (Progress.next (s.key first) (s.key second)) .before
  have guard : ∀ r : Request, r.isGuard = true → r.number? = none := by
    intro r hr
    cases r with
    | store c => cases c <;> first | rfl | cases hr
    | _ => rfl
  have begins : (still s a first second (Left a t second c (s.marks m.ints))
      (m.ints, .before) nofun).Begins
        (scanning s a first second (Left a t second c (s.marks m.ints)) m.ints) (s.sweep t) := by
    cases two with
    | maturity => exact begins_sweepMaturity
    | batch r => exact begins_sweepBatch r
  have tick : (still s a first second (Left a t second c (s.marks m.ints))
      (m.ints, .before) nofun).Begins
        (scanning s a first second (Left a t second c (s.marks m.ints)) m.ints) (s.tick t) := by
    refine Phase.begins_guarded guard (fun hw he hv => staged_still hv (guard _ he) ▸ hw) begins ?_
    intro w hw
    obtain rfl : w = (m.ints, .before) := hw
    exact halted_of_ne nofun
  have halted := Program.Ensures.invariant (tick (m.ints, .before) rfl) scanning_kept
    (halted_of_ne nofun) noted
  exact halted ((cutBetween_iff es).1 cut)

end Setup

def Event.announces : Event → Bool
  | ⟨.records _, _⟩ | ⟨.launch _ _, _⟩ => true
  | _ => false

theorem Event.not_announces_of_isQuiet {e : Event} (h : e.isQuiet = true) :
    e.announces = false := by
  obtain ⟨r, x⟩ := e
  cases r with
  | records c | launch d n => cases h
  | _ => rfl

/-- A tick of the task has blocks to scan. -/
def Answers.Scans (a : Answers) : Task → Marks → Prop
  | .maturity, v => (a.windowAt v).isSome = true
  | .batch r, v => (v r.ceiling).getD 0 < a.ceilingOf r
  | .feed _, _ => False

namespace Surroundings
open Routine

abbrev hearing (a : Answers) : Surroundings ((String → Option UInt64) × Bool) :=
  (numbers.only a.agrees).noted fun b e => b || e.announces

variable {a : Answers} {w : (String → Option UInt64) × Bool}

theorem hearing_shows (a : Answers) : (hearing a).Shows Prod.fst fun _ _ => True :=
  numbers_shows (fun b e he => by simp [Event.not_announces_of_isQuiet he]) fun _ _ _ _ _ => trivial

def findings : Contract ((String → Option UInt64) × Bool) :=
  .scans (fun _ _ => True) (fun _ _ _ => True) fun _ w t => t = (w.1, true)

theorem findings_kept : findings.Kept (hearing a) fun _ => True := by
  rintro (⟨sc, offset, summary⟩ | ⟨s, f, last, dispatched⟩ | ⟨l, deadline⟩ | ⟨s, t, i, deadline⟩)
    w - hn
  · refine (hearing_shows a).ensures_page fun x t ht => ⟨trivial, ?_⟩
    obtain rfl : t = (w.1, true) := Prod.ext ht.1.2 (ht.2.trans (Bool.or_true _))
    cases x with
    | error err => trivial
    | ok rows =>
      refine Program.Ensures.mono ((hearing_shows a).ensures_offerAll
        (J := fun _ u => u = (w.1, true)) (fun _ _ _ _ h _ => h) ?_ trivial rfl) ?_
      · rintro n rest u - rfl - v hv
        exact ⟨trivial, Prod.ext hv.1.2 hv.2⟩
      · rintro sent u rfl
        dsimp only
        split
        · rfl
        · refine ⟨trivial, fun r v _ hv => ?_⟩
          cases r with
          | ok summary => exact hv
          | error err => trivial
  all_goals exact hn.elim

theorem moves_hearing {s : Setup} {k : Watermark} {value : UInt64}
    {Q : (String → Option UInt64) × Bool → Prop}
    (h : ∀ v, v.2 = w.2 → s.marks v.1 = (s.marks w.1).raise k value → Q v) :
    Shows.Moves (hearing a) Prod.fst (fun _ => True) (s.key k) value w Q := by
  refine ⟨fun le => h w rfl (Marks.raise_of_le le).symm, fun lt v hv => ⟨trivial, h v ?_ ?_⟩⟩
  · exact hv.2.trans (Bool.or_false _)
  · rw [(hearing_shows a).write hv, Setup.marks_update, Marks.raise_of_lt lt]

end Surroundings

namespace Setup
open Routine Surroundings

variable {s : Setup} {a : Answers} {t : Task} {first second : Watermark} {c : ChainCall}
variable {w : (String → Option UInt64) × Bool} {o : Outcome}

def Recovers (s : Setup) (a : Answers) (second : Watermark) (c : ChainCall) (scans : Prop)
    (v : Marks) (o : Outcome) (u : (String → Option UInt64) × Bool) : Prop :=
  s.marks u.1 second = some (a.chain c) ∧ (u.2 = true ↔ scans) ∧
    ∃ dispatched, o = .advanced ((v second).getD 0) (a.chain c) dispatched ∧
      (¬ scans → dispatched = 0)

theorem ensures_sweepMaturity_recovers {ints : String → Option UInt64}
    (behind : (s.marks ints .head).getD 0 < a.chain .head) :
    s.sweepMaturity.Ensures (hearing a) (fun _ => True) findings (fun _ _ => True) (ints, false)
      (s.Recovers a .head .head (a.Scans .maturity (s.marks ints)) (s.marks ints)) := by
  have hS := hearing_shows a
  refine hS.ensures_sweepMaturity_of_head trivial ?_ ?_
  · intro newHead answered hle
    obtain rfl : newHead = a.chain .head := answered.1.1
    exact absurd behind (UInt64.not_lt.2 hle)
  · intro newHead depth t answered hlt ht
    obtain rfl : newHead = a.chain .head := answered.1.1
    obtain rfl : depth = a.depth := ht.1.1
    obtain rfl : t = (ints, false) := Prod.ext ht.1.2 ht.2
    refine ⟨trivial, ?_⟩
    cases window : a.windowAt (s.marks ints) with
    | none =>
      have none : matured? ((ints (s.key .head)).getD 0) (a.chain .head) a.depth
          (ints (s.key .scanned)) = none := window
      simp only [none]
      refine moves_hearing fun v hv raised => ⟨?_, ?_, 0, rfl, fun _ => rfl⟩
      · rw [raised, Marks.raise_of_lt behind, Marks.set_self]
      · simp [hv, Answers.Scans, window]
    | some r =>
      have some : matured? ((ints (s.key .head)).getD 0) (a.chain .head) a.depth
          (ints (s.key .scanned)) = some r := window
      have scans : a.Scans .maturity (s.marks ints) := by simp [Answers.Scans, window]
      simp only [some]
      refine Contract.scans_run (le_of_matured? some).1 trivial fun summary u _ hu => ?_
      subst hu
      refine moves_hearing fun v hv first => moves_hearing fun x hx last => ⟨?_, ?_, _, rfl, ?_⟩
      · have headed : (s.marks v.1 .head).getD 0 < a.chain .head := by
          rw [first, Marks.raise_of_ne (by decide)]
          exact behind
        rw [last, Marks.raise_of_lt headed, Marks.set_self]
      · simp [hx, hv, scans]
      · exact fun not => absurd scans not

theorem ensures_sweepBatch_recovers {r : Role} {ints : String → Option UInt64}
    (behind : (s.marks ints r.batch).getD 0 < a.chain r.latest) :
    (s.sweepBatch r).Ensures (hearing a) (fun _ => True) findings (fun _ _ => True) (ints, false)
      (s.Recovers a r.batch r.latest (a.Scans (.batch r) (s.marks ints)) (s.marks ints)) := by
  have hS := hearing_shows a
  have apart : r.batch ≠ r.ceiling := by cases r <;> decide
  have settled : ∀ {b : Bool} {o : Outcome}, (b = true ↔ a.Scans (.batch r) (s.marks ints)) →
      (∃ dispatched, o = .advanced ((s.marks ints r.batch).getD 0) (a.chain r.latest) dispatched ∧
        (¬ a.Scans (.batch r) (s.marks ints) → dispatched = 0)) →
      Shows.Settles (hearing a) Prod.fst (fun _ => True) s r (a.ceilingOf r) (a.chain r.latest)
        (ints, b) (s.Recovers a r.batch r.latest (a.Scans (.batch r) (s.marks ints))
          (s.marks ints) o) := by
    intro b o scans ended
    refine moves_hearing fun u hu first => moves_hearing fun v hv last => ?_
    have marked : s.marks v.1 r.batch = some (a.chain r.latest) := by
      have headed : (s.marks u.1 r.batch).getD 0 < a.chain r.latest := by
        rw [first, Marks.raise_of_ne apart]
        exact behind
      rw [last, Marks.raise_of_lt headed, Marks.set_self]
    have noted : v.2 = b := hv.trans hu
    refine ⟨⟨marked, noted ▸ scans, ended⟩, fun average x hx => ⟨trivial, ?_, ?_, ended⟩⟩
    · rw [hS.write hx, marks_update_average]
      exact marked
    · have same : x.2 = b := (hx.2.trans (Bool.or_false _)).trans noted
      exact same ▸ scans
  refine hS.ensures_sweepBatch_of_latest trivial ?_ ?_ ?_
  · intro latest answered hle
    obtain rfl : latest = a.chain r.latest := answered.1.1
    exact absurd behind (UInt64.not_lt.2 hle)
  · intro latest newCeiling answered counted hlt hc
    obtain rfl : latest = a.chain r.latest := answered.1.1
    obtain rfl : newCeiling = a.ceilingOf r := counted.1.1
    have low : (ints (s.key r.ceiling)).getD 0 + 1 ≤ a.ceilingOf r := by
      rw [UInt64.le_iff_toNat_le, Word.toNat_succ_of_lt hc]
      exact hc
    refine Contract.scans_run low trivial fun summary t _ same => ?_
    subst same
    exact settled (iff_of_true rfl hc) ⟨_, rfl, fun not => absurd hc not⟩
  · intro latest newCeiling answered counted hlt hc
    obtain rfl : latest = a.chain r.latest := answered.1.1
    obtain rfl : newCeiling = a.ceilingOf r := counted.1.1
    exact settled (iff_of_false nofun (UInt64.not_lt.2 hc)) ⟨0, rfl, fun _ => rfl⟩

end Setup

namespace Answers
open Word

variable {a : Answers} {v v' : Marks} {t : Task} {first second : Watermark} {c : ChainCall}

/-- A tick that is cut short leaves no trace of its scan: it ends at block zero and no block was
known to be scanned, or it ends at the last block there can be. -/
def ScansAgain (a : Answers) : Task → Marks → Prop
  | .maturity, v => v .scanned = none ∧ a.chain .head = a.depth ∨
      a.depth = 0 ∧ a.chain .head = Word.largest
  | _, _ => False

theorem windowAt_isSome_iff : (a.windowAt v).isSome = true ↔
    (windowStart ((v .head).getD 0) a.depth (v .scanned)).toNat + a.depth.toNat ≤
      (a.chain .head).toNat := by
  constructor
  · intro some
    obtain ⟨r, hr⟩ := Option.isSome_iff_exists.1 some
    obtain ⟨low, le, ends⟩ := matured?_eq_some_iff.1 hr
    rw [UInt64.le_iff_toNat_le, low] at le
    omega
  · intro h
    have deep : a.depth ≤ a.chain .head := UInt64.le_iff_toNat_le.2 (by omega)
    have high := UInt64.toNat_sub_of_le _ _ deep
    have window : a.windowAt v = some ⟨windowStart ((v .head).getD 0) a.depth (v .scanned),
        a.chain .head - a.depth⟩ := by
      refine matured?_eq_some_iff.2 ⟨rfl, UInt64.le_iff_toNat_le.2 ?_, ?_⟩
      · dsimp only
        omega
      · dsimp only
        omega
    rw [window]
    rfl

theorem halfway_second (two : MovesTwo t first second c) : a.halfway t v second = v second := by
  cases two with
  | maturity => exact scannedMarks_head v
  | batch r => exact Marks.raise_of_ne (by cases r <;> decide)

theorem scans_congr (two : MovesTwo t first second c) (one : v' first = v first)
    (other : v' second = v second) : a.Scans t v' ↔ a.Scans t v := by
  cases two with
  | maturity => simp only [Scans, windowAt, one, other]
  | batch r => simp only [Scans, one]

theorem scans_scannedMarks_iff (behind : (v .head).getD 0 < a.chain .head) :
    (a.windowAt (a.scannedMarks v)).isSome = true ↔ a.ScansAgain .maturity v := by
  have top : largest.toNat = 0xFFFFFFFFFFFFFFFF := rfl
  have zero : (0 : UInt64).toNat = 0 := rfl
  have lt : ((v .head).getD 0).toNat < (a.chain .head).toNat := behind
  have bound := (a.chain .head).toNat_lt
  cases window : a.windowAt v with
  | none =>
    rw [scannedMarks_of_none window, window]
    refine iff_of_false nofun ?_
    have shut : ¬ (a.windowAt v).isSome = true := by simp [window]
    rw [windowAt_isSome_iff] at shut
    rintro (⟨unset, shallow⟩ | ⟨bare, last⟩)
    · rw [unset, toNat_windowStart_none, ← shallow] at shut
      omega
    · rw [last, bare, top, zero] at shut
      have start := (windowStart ((v .head).getD 0) 0 (v .scanned)).toNat_lt
      omega
  | some r =>
    obtain ⟨low, le, ends⟩ := matured?_eq_some_iff.1 window
    rw [UInt64.le_iff_toNat_le, low] at le
    rw [scannedMarks_of_some window]
    by_cases higher : (v .scanned).getD 0 < r.high
    · rw [Marks.raise_of_lt higher, windowAt_isSome_iff, Marks.set_self, toNat_windowStart_some,
        ScansAgain, ← UInt64.toNat_inj, ← UInt64.toNat_inj, ← UInt64.toNat_inj, top, zero]
      rw [UInt64.lt_iff_toNat_lt] at higher
      constructor
      · intro again
        omega
      · rintro (⟨-, shallow⟩ | last) <;> omega
    · rw [Marks.raise_of_le (UInt64.not_lt.1 higher), window]
      refine iff_of_true rfl ?_
      rw [UInt64.lt_iff_toNat_lt] at higher
      rw [ScansAgain, ← UInt64.toNat_inj, ← UInt64.toNat_inj, ← UInt64.toNat_inj, top, zero]
      cases known : v .scanned with
      | none =>
        rw [known] at higher
        have ground : r.high.toNat = 0 := Nat.eq_zero_of_not_pos higher
        exact .inl ⟨rfl, by omega⟩
      | some x =>
        rw [known] at le higher
        rw [toNat_windowStart_some] at le
        change ¬ x.toNat < r.high.toNat at higher
        exact .inr (by omega)

theorem scans_halfway_iff (two : MovesTwo t first second c)
    (behind : (v second).getD 0 < a.chain c) :
    a.Scans t (a.halfway t v) ↔ a.ScansAgain t v := by
  cases two with
  | maturity => exact scans_scannedMarks_iff behind
  | batch r => exact iff_of_false (UInt64.not_lt.2 (Marks.le_raise v r.ceiling _)) id

end Answers

namespace Setup
open Surroundings

variable {s : Setup} {a : Answers} {t : Task} {first second : Watermark} {c : ChainCall}
variable {o : Outcome}
variable {m n n' u : Memory} {es es' : List Event} {p : Program (Except Error Outcome)}

/-- A tick that comes to its end while its second watermark is behind brings it up to the chain,
and announces something if and only if it has blocks to scan. -/
theorem recovers_of_leads (two : MovesTwo t first second c)
    (behind : (s.marks m.ints second).getD 0 < a.chain c)
    (run : (s.tick t).run.Leads (shared.only a.agrees) m es (.done (.ok o)) u)
    (unlocked : o ≠ .locked) : s.Recovers a second c (a.Scans t (s.marks m.ints)) (s.marks m.ints)
      o (u.ints, es.any Event.announces) := by
  have seen := run.map (T := numbers.only a.agrees) Memory.ints
    fun _ _ _ h => ⟨h.1, numbers_of_shared h.2⟩
  have noted := seen.noticed Event.announces
  have swept : (s.sweep t).Ensures (hearing a) (fun _ => True) findings (fun _ _ => True)
      (m.ints, false) (s.Recovers a second c (a.Scans t (s.marks m.ints)) (s.marks m.ints)) := by
    cases two with
    | maturity => exact ensures_sweepMaturity_recovers behind
    | batch r => exact ensures_sweepBatch_recovers behind
  have tick := (hearing_shows a).ensures_tick (Q := fun o u => o ≠ .locked →
      s.Recovers a second c (a.Scans t (s.marks m.ints)) (s.marks m.ints) o u) trivial
    (fun h => absurd rfl h) (swept.mono fun _ _ h _ => h)
  exact Program.Ensures.result tick findings_kept trivial noted unlocked

/-- If the second write of a tick fails, the next tick comes to its end and makes up for it. It asks
for no rows and announces nothing, unless the first write left no trace. -/
theorem retry_of_cut (kept : a.table.WellKept) (two : MovesTwo t first second c)
    (run : (s.tick t).run.Leads (shared.only a.agrees) m es p n)
    (cut : CutBetween (s.key first) (s.key second) es)
    (one : n'.ints (s.key first) = n.ints (s.key first))
    (other : n'.ints (s.key second) = n.ints (s.key second)) :
    (∃ es' o u, (s.tick t).run.Leads (calm a) n' es' (.done (.ok o)) u ∧ o ≠ .locked) ∧
      ∀ es' o u, (s.tick t).run.Leads (shared.only a.agrees) n' es' (.done (.ok o)) u →
        o ≠ .locked →
          (n'.ints (s.key second)).getD 0 < a.chain c ∧ u.ints (s.key second) = some (a.chain c) ∧
          ((∀ e ∈ es', e.announces = false) ↔ ¬ a.ScansAgain t (s.marks m.ints)) ∧
          (¬ a.ScansAgain t (s.marks m.ints) →
            o = .advanced ((n'.ints (s.key second)).getD 0) (a.chain c) 0) := by
  obtain ⟨left, behind⟩ := left_of_cut two run cut
  have late : (s.marks n'.ints second).getD 0 < a.chain c := by
    change (n'.ints (s.key second)).getD 0 < a.chain c
    rw [other]
    change (s.marks n.ints second).getD 0 < a.chain c
    rw [left, Answers.halfway_second two]
    exact behind
  have scans : a.Scans t (s.marks n'.ints) ↔ a.ScansAgain t (s.marks m.ints) := by
    rw [Answers.scans_congr (v := s.marks n.ints) two one other, left]
    exact Answers.scans_halfway_iff two behind
  constructor
  · obtain ⟨es', r, u, run', o, rfl, unlocked⟩ := succeeds_tick (s := s) kept t n'
    exact ⟨es', o, u, run', unlocked⟩
  · intro es' o u run' unlocked
    obtain ⟨caught, announced, dispatched, rfl, none⟩ := recovers_of_leads two late run' unlocked
    rw [scans] at announced none
    refine ⟨late, caught, ?_, fun quiet => ?_⟩
    · rw [← not_congr announced]
      simp
    · rw [none quiet]
      rfl

open Simulation

def refusing (s : Setup) (head : UInt64) (w : World) : World :=
  { w with
    store := { w.store with refused := [s.key .head] }
    chain := { w.chain with head := head } }

theorem leads_played {w : World} (k : Nat) {o : Except Error Outcome}
    (answers : ∀ e ∈ (trace k (s.tick t).run w).1, a.agrees e)
    (ended : (trace k (s.tick t).run w).2.1.result? = some o) :
    (s.tick t).run.Leads (shared.only a.agrees) w.store.memory (trace k (s.tick t).run w).1
      (.done o) (trace k (s.tick t).run w).2.2.store.memory := by
  have run := (leads_trace k (s.tick t).run w).map (T := shared) (fun w => w.store.memory)
    fun _ _ _ => shared_of_scripted
  rw [Program.eq_done_of_result? ended] at run
  exact run.only answers

def refusedTick : List Event × Program (Except Error Outcome) × World :=
  trace 60 (onePerPage.tick .maturity).run (refusing onePerPage 100 depositWorld)

theorem retry_of_refusedTick :
    CutBetween (onePerPage.key .scanned) (onePerPage.key .head) refusedTick.1 ∧
    (∃ es o u, (onePerPage.tick .maturity).run.Leads (calm headAt100) refusedTick.2.2.store.memory es
      (.done (.ok o)) u ∧ o ≠ .locked) ∧
    ∀ es o u, (onePerPage.tick .maturity).run.Leads (shared.only headAt100.agrees)
      refusedTick.2.2.store.memory es (.done (.ok o)) u → o ≠ .locked →
        u.ints (onePerPage.key .head) = some 100 ∧ (∀ e ∈ es, e.announces = false) := by
  have answers : ∀ e ∈ refusedTick.1, headAt100.agrees e := by decide +kernel
  have ended : refusedTick.2.1.result? =
      some (.error (FaultyStore.refusal (onePerPage.key .head))) := by decide +kernel
  have cut : CutBetween (onePerPage.key .scanned) (onePerPage.key .head) refusedTick.1 := by
    decide +kernel
  have deep : ¬ headAt100.ScansAgain .maturity
      (onePerPage.marks (refusing onePerPage 100 depositWorld).store.memory.ints) := by
    rintro (⟨-, shallow⟩ | ⟨bare, -⟩)
    · exact absurd shallow (by decide)
    · exact absurd bare (by decide)
  obtain ⟨ends, retried⟩ := retry_of_cut wellKept_twoDeposits .maturity
    (leads_played 60 answers ended) cut rfl rfl
  refine ⟨cut, ends, fun es o u run unlocked => ?_⟩
  obtain ⟨-, caught, quiet, -⟩ := retried es o u run unlocked
  exact ⟨caught, quiet.2 deep⟩

def depositAtZero : RecordTable := ⟨[⟨1, mainDeposit 7 0, false⟩], []⟩

theorem wellKept_depositAtZero : depositAtZero.WellKept :=
  ⟨by decide, by decide, by decide, by decide⟩

def headAt1 : Answers := ⟨fun _ => 1, depositAtZero, 1⟩

/-- The window ends at block zero, so that nothing is recorded, and the head cannot be written. -/
def refusedAtZero : List Event × Program (Except Error Outcome) × World :=
  trace 60 (plainSetup.tick .maturity).run
    (refusing plainSetup 1 (.initial 1 .empty depositAtZero))

def retriedAtZero : List Event × Program (Except Error Outcome) × World :=
  trace 60 (plainSetup.tick .maturity).run refusedAtZero.2.2

/-- The deposit in block zero is announced by both ticks. -/
theorem not_quiet_of_refusedAtZero : ¬ ∀ {s : Setup} {a : Answers} {t : Task}
    {first second : Watermark} {c : ChainCall} {m n u : Memory} {es es' : List Event} {err : Error}
    {o : Outcome}, a.table.WellKept → 1 ≤ a.depth → MovesTwo t first second c →
    (s.tick t).run.Leads (shared.only a.agrees) m es (.done (.error err)) n →
    CutBetween (s.key first) (s.key second) es →
    (s.tick t).run.Leads (shared.only a.agrees) n es' (.done (.ok o)) u → o ≠ .locked →
      ∀ e ∈ es', e.announces = false := by
  intro h
  have answers : ∀ e ∈ refusedAtZero.1, headAt1.agrees e := by decide +kernel
  have failed : refusedAtZero.2.1.result? =
      some (.error (FaultyStore.refusal (plainSetup.key .head))) := by decide +kernel
  have cut : CutBetween (plainSetup.key .scanned) (plainSetup.key .head) refusedAtZero.1 := by
    decide +kernel
  have answers' : ∀ e ∈ retriedAtZero.1, headAt1.agrees e := by decide +kernel
  have ended : retriedAtZero.2.1.result? = some (.ok (.advanced 0 1 1)) := by decide +kernel
  have loud : ∃ e ∈ retriedAtZero.1, e.announces = true := by decide +kernel
  have quiet := h wellKept_depositAtZero (by decide) .maturity (leads_played 60 answers failed) cut
    (leads_played 60 answers' ended) nofun
  obtain ⟨e, he, announced⟩ := loud
  exact absurd (quiet e he) (by simp [announced])

end Setup
end BridgeNotifier
