import BridgeNotifier.Proofs.LaterTicks
set_option autoImplicit false

namespace BridgeNotifier
open Surroundings

namespace Event

/-- A page of a feed has only rows beyond the id that it was asked for. -/
def ascends : Event → Bool
  | ⟨.records (.depositsAfter last _), .ok rows⟩ => rows.all fun row => last < row.1
  | ⟨.records (.claimsAfter last _), .ok rows⟩ => rows.all fun row => last < row.1
  | _ => true

theorem ascends_answer (t : RecordTable) (c : RecordCall) :
    (Event.mk (.records c) (.ok (t.answer c))).ascends = true := by
  cases c with
  | depositsAfter last size | claimsAfter last size =>
    refine List.all_eq_true.2 fun row mem => ?_
    obtain ⟨e, he, rfl⟩ := List.mem_map.1 mem
    exact (List.mem_filter.1 (List.mem_of_mem_take he)).2
  | _ => rfl

def written? (key : String) : Event → Option UInt64
  | ⟨.store (.setInt k v), .ok _⟩ => if k = key then some v else none
  | _ => none

def shown? (w : Watermark) : Event → Option UInt64
  | ⟨.measure (.checkpoint k v), _⟩ => if k = w then some v else none
  | _ => none

end Event

namespace Watermark

/-- The last value that was written of a watermark, and the last one that was shown. -/
structure Latest where
  written : Option UInt64
  shown : Option UInt64

namespace Latest

def start : Latest := ⟨none, none⟩

def next (key : String) (w : Watermark) (o : Latest) (e : Event) : Latest :=
  ⟨(e.written? key).or o.written, (e.shown? w).or o.shown⟩

end Latest

abbrev View := (String → Option UInt64) × Latest

def isPrompt : Watermark → Bool
  | .scanned | .depositFeed | .claimFeed => false
  | _ => true

/-- The gauge shows the value that a tick wrote last, once the tick has come to its result. -/
def Shows (w : Watermark) (x : Except Error Outcome) (v : UInt64) : Prop :=
  w ≠ .scanned ∧
    ∀ f : Feed, f.watermark = w → ∃ start dispatched, x = .ok (.advanced start v dispatched)

theorem shows_of_isPrompt {w : Watermark} (h : w.isPrompt = true) (x : Except Error Outcome)
    (v : UInt64) : w.Shows x v := by
  refine ⟨?_, fun f hf => ?_⟩
  · rintro rfl
    cases h
  · cases f <;> cases hf <;> cases h

theorem not_shows_scanned (x : Except Error Outcome) (v : UInt64) : ¬ scanned.Shows x v :=
  fun h => h.1 rfl

theorem not_shows_feed {f : Feed} {x : Except Error Outcome} {v : UInt64}
    (other : ∀ start dispatched, x ≠ .ok (.advanced start v dispatched)) :
    ¬ f.watermark.Shows x v := by
  intro shows
  obtain ⟨start, dispatched, same⟩ := shows.2 f rfl
  exact other start dispatched same

end Watermark

namespace Program

variable {σ α : Type} {S : Surroundings σ} {C : Contract σ}
variable {ok : Request → Prop} {loops : Loop → Prop}

theorem ensures_of_within {p : Program α} {J : σ → Prop} {u : σ} (within : p.Within ok loops)
    (step : ∀ {u e v}, J u → ok e.request → S u e v → J v)
    (round : ∀ l u, loops l → J u → C.needs l u ∧ ∀ x v, C.gives l u x v → J v) (hu : J u) :
    p.Ensures S (fun _ => True) C u fun _ v => J v := by
  induction p generalizing u with
  | done a => exact hu
  | ask r k ih =>
    intro x v hv
    exact ⟨trivial, ih x (within.2 x) (step (e := ⟨r, x⟩) hu within.1 hv)⟩
  | call l k ih =>
    obtain ⟨needs, gives⟩ := round l u within.1 hu
    exact ⟨needs, fun x v _ hv => ih x (within.2 x) (gives x v hv)⟩

end Program

namespace Setup
open Routine

abbrev watching (s : Setup) (w : Watermark) : Surroundings Watermark.View :=
  (numbers.only fun e => e.ascends = true).noted (Watermark.Latest.next (s.key w) w)

def spares (s : Setup) (w : Watermark) : Request → Prop
  | .store (.setInt key _) => key ≠ s.key w
  | .measure (.checkpoint k _) => k ≠ w
  | _ => True

def scans (s : Setup) (t : Task) : Loop → Prop
  | .scan sc _ _ => sc.dispatcher = s.dispatcher ∧ sc.status = t.status
  | _ => False

variable {s : Setup} {w k : Watermark} {t : Task} {r : Role} {f : Feed} {before : Option UInt64}
variable {u v z : Watermark.View} {x : Except Error Outcome} {value : UInt64}

structure Rests (s : Setup) (w : Watermark) (u v : Watermark.View) : Prop where
  ints : v.1 (s.key w) = u.1 (s.key w)
  latest : v.2 = u.2

theorem Rests.refl (u : Watermark.View) : s.Rests w u u :=
  ⟨rfl, rfl⟩

theorem Rests.trans (h : s.Rests w u v) (h' : s.Rests w v z) : s.Rests w u z :=
  ⟨h'.ints.trans h.ints, h'.latest.trans h.latest⟩

theorem written?_of_spares {e : Event} (spares : s.spares w e.request) :
    e.written? (s.key w) = none := by
  obtain ⟨q, x⟩ := e
  cases q with
  | store c =>
    cases c with
    | setInt key v =>
      cases x with
      | ok a => exact if_neg spares
      | error err => rfl
    | _ => rfl
  | _ => rfl

theorem shown?_of_spares {e : Event} (spares : s.spares w e.request) : e.shown? w = none := by
  obtain ⟨q, x⟩ := e
  cases q with
  | measure m =>
    cases m with
    | checkpoint k v => exact if_neg spares
    | _ => rfl
  | _ => rfl

theorem rests_of_spares {e : Event} (spares : s.spares w e.request) (h : s.watching w u e v) :
    s.Rests w u v := by
  obtain ⟨⟨-, numbers⟩, noted⟩ := h
  refine ⟨numbers_of_ne numbers fun _ same => absurd rfl (same ▸ spares), ?_⟩
  rw [noted, Watermark.Latest.next, written?_of_spares spares, shown?_of_spares spares]
  rfl

structure Unchanged (s : Setup) (w : Watermark) (before : Option UInt64)
    (u : Watermark.View) : Prop where
  ints : u.1 (s.key w) = before
  latest : u.2 = .start

structure Wrote (s : Setup) (w : Watermark) (before : Option UInt64) (value : UInt64)
    (u : Watermark.View) : Prop where
  ints : u.1 (s.key w) = some value
  latest : u.2 = ⟨some value, none⟩
  later : ∀ b ∈ before, b < value

/-- What a tick that began with a number comes to. -/
inductive Closes (s : Setup) (w : Watermark) (before : Option UInt64) (x : Except Error Outcome)
    (u : Watermark.View) : Prop where
  /-- Nothing is written. A ceiling that stays where it was is shown all the same. -/
  | still (ints : u.1 (s.key w) = before) (written : u.2.written = none)
      (shown : ∀ g ∈ u.2.shown, w.isPrompt = true ∧ g = before.getD 0)
  | told (value : UInt64) (ints : u.1 (s.key w) = some value)
      (latest : u.2 = ⟨some value, some value⟩) (shows : w.Shows x value)
  | hidden (value : UInt64) (wrote : s.Wrote w before value u) (hides : ¬ w.Shows x value)

theorem Unchanged.rests (h : s.Unchanged w before u) (rest : s.Rests w u v) :
    s.Unchanged w before v :=
  ⟨rest.ints.trans h.ints, rest.latest.trans h.latest⟩

theorem Wrote.rests (h : s.Wrote w before value u) (rest : s.Rests w u v) :
    s.Wrote w before value v :=
  ⟨rest.ints.trans h.ints, rest.latest.trans h.latest, h.later⟩

theorem Closes.rests (h : s.Closes w before x u) (rest : s.Rests w u v) :
    s.Closes w before x v := by
  cases h with
  | still ints written shown =>
    exact .still (rest.ints.trans ints) (rest.latest ▸ written) (rest.latest ▸ shown)
  | told value ints noted shows =>
    exact .told value (rest.ints.trans ints) (rest.latest.trans noted) shows
  | hidden value wrote hides => exact .hidden value (wrote.rests rest) hides

theorem Unchanged.closes (h : s.Unchanged w before u) : s.Closes w before x u :=
  .still h.ints (by rw [h.latest]; rfl) (by rw [h.latest]; exact nofun)

/-- What the rounds of a feed keep: nothing is written yet, or the last id is. -/
def Pursues (s : Setup) (w : Watermark) (before : Option UInt64) (last : UInt64)
    (u : Watermark.View) : Prop :=
  before = some last ∧ s.Unchanged w before u ∨ s.Wrote w before last u

def tending (s : Setup) (w : Watermark) (before : Option UInt64) :
    Contract Watermark.View where
  needs
    | .feed s' f last _, u => s' = s ∧ f.watermark = w ∧ s.Pursues w before last u
    | l, _ => s.scans w.owner l
  gives
    | .feed .., _, r, v => Ends (fun err v => s.Closes w before (.error err) v)
        (fun (r : UInt64 × UInt64) v => s.Pursues w before r.1 v) r v
    | _, u, _, v => s.Rests w u v

abbrev Tends (s : Setup) (w : Watermark) (before : Option UInt64) {α : Type} (p : Routine α)
    (u : Watermark.View) (Q : α → Watermark.View → Prop) : Prop :=
  p.Ensures (s.watching w) (fun _ => True) (s.tending w before)
    (fun err => s.Closes w before (.error err)) u Q

theorem ensures_rest {α : Type} {p : Program α} (within : p.Within (s.spares w) (s.scans w.owner)) :
    p.Ensures (s.watching w) (fun _ => True) (s.tending w before) u fun _ v => s.Rests w u v := by
  refine Program.ensures_of_within within
    (fun hu may h => hu.trans (rests_of_spares may h)) ?_ (.refl u)
  intro l v scans hv
  cases l with
  | scan sc offset summary => exact ⟨scans, fun _ z hz => hv.trans hz⟩
  | _ => exact scans.elim

section Steps
variable {α : Type} {p : Routine α} {Q : α → Watermark.View → Prop}

theorem tends_rest (within : p.Within (s.spares w) (s.scans w.owner))
    (failed : ∀ err v, s.Rests w u v → s.Closes w before (.error err) v)
    (hQ : ∀ a v, s.Rests w u v → Q a v) : s.Tends w before p u Q := by
  refine (ensures_rest within).mono fun x v hv => ?_
  cases x with
  | ok a => exact hQ a v hv
  | error err => exact failed err v hv

theorem tends_unchanged (within : p.Within (s.spares w) (s.scans w.owner))
    (hu : s.Unchanged w before u) (hQ : ∀ a v, s.Unchanged w before v → Q a v) :
    s.Tends w before p u Q :=
  tends_rest within (fun _ _ rest => (hu.rests rest).closes) fun a v rest => hQ a v (hu.rests rest)

theorem tends_closed {p : Routine Outcome} (within : p.Within (s.spares w) (s.scans w.owner))
    (closed : ∀ x, s.Closes w before x u) :
    s.Tends w before p u fun o v => s.Closes w before (.ok o) v :=
  tends_rest within (fun _ _ rest => (closed _).rests rest) fun _ _ rest => (closed _).rests rest

end Steps

theorem tends_get? {Q : Option UInt64 → Watermark.View → Prop}
    (failed : ∀ err v, s.Rests w u v → s.Closes w before (.error err) v)
    (hQ : ∀ v, s.Rests w u v → Q (u.1 (s.key w)) v) :
    s.Tends w before (Checkpoint.get? s.config.namespaceName w) u Q := by
  refine ensures_store fun x v hv => ⟨trivial, ?_⟩
  have rest := rests_of_spares (e := ⟨_, x⟩) (trivial : s.spares w (.store (.getInt _))) hv
  cases x with
  | error err => exact failed err v rest
  | ok found =>
    obtain rfl : found = u.1 (s.key w) := hv.1.2.1
    exact hQ v rest

theorem tends_get {Q : UInt64 → Watermark.View → Prop}
    (failed : ∀ err v, s.Rests w u v → s.Closes w before (.error err) v)
    (hQ : ∀ v, s.Rests w u v → Q ((u.1 (s.key w)).getD 0) v) :
    s.Tends w before (Checkpoint.get s.config.namespaceName w) u Q :=
  ensures_bind (tends_get? failed fun v rest => ensures_pure (hQ v rest))

theorem tends_write {Q : Unit → Watermark.View → Prop}
    (failed : ∀ err v, s.Rests w u v → s.Closes w before (.error err) v)
    (hQ : ∀ v, v.1 (s.key w) = some value → v.2 = { u.2 with written := some value } → Q () v) :
    s.Tends w before (Routine.store (.setInt (s.key w) value)) u Q := by
  refine ensures_store fun x v hv => ⟨trivial, ?_⟩
  obtain ⟨⟨-, numbers⟩, noted⟩ := hv
  cases x with
  | error err => exact failed err v ⟨congrFun numbers _, noted⟩
  | ok a =>
    refine hQ v ((congrFun numbers _).trans (Function.update_self ..)) (noted.trans ?_)
    simp [Watermark.Latest.next, Event.written?, Event.shown?]

theorem tends_advance {Q : Bool → Watermark.View → Prop}
    (failed : ∀ err v, s.Rests w u v → s.Closes w before (.error err) v)
    (lower : value < (u.1 (s.key w)).getD 0 → ∀ v, s.Rests w u v → Q false v)
    (same : value = (u.1 (s.key w)).getD 0 → ∀ v, s.Rests w u v → Q true v)
    (higher : (u.1 (s.key w)).getD 0 < value → ∀ v, v.1 (s.key w) = some value →
      v.2 = { u.2 with written := some value } → Q true v) :
    s.Tends w before (Checkpoint.advance s.config.namespaceName w value) u Q := by
  refine ensures_bind (tends_get failed fun v rest => ?_)
  by_cases less : value < (u.1 (s.key w)).getD 0
  · simp only [if_pos less]
    exact ensures_pure (lower less v rest)
  by_cases equal : value = (u.1 (s.key w)).getD 0
  · simp only [if_neg less, if_pos equal]
    exact ensures_pure (same equal v rest)
  simp only [if_neg less, if_neg equal]
  have above : (u.1 (s.key w)).getD 0 < value :=
    UInt64.lt_of_le_of_ne (UInt64.not_lt.1 less) (Ne.symm equal)
  refine ensures_bind (tends_write (fun err z rest' => failed err z (rest.trans rest')) ?_)
  intro z ints noted
  exact ensures_pure (higher above z ints (by rw [noted, rest.latest]))

theorem tends_show {Q : Unit → Watermark.View → Prop}
    (hQ : ∀ v, v.1 = u.1 → v.2 = { u.2 with shown := some value } → Q () v) :
    s.Tends w before (Routine.measure (.checkpoint w value)) u Q := by
  refine ensures_lift fun x v hv => ⟨trivial, ?_⟩
  obtain ⟨⟨-, numbers⟩, noted⟩ := hv
  exact hQ v numbers (noted.trans (by simp [Watermark.Latest.next, Event.written?, Event.shown?]))

theorem tends_advance_show {β : Type} {p : Routine β} {Q : β → Watermark.View → Prop}
    (prompt : w.isPrompt = true) (hu : s.Unchanged w before u) (above : before.getD 0 < value)
    (hQ : ∀ v, (∀ x, s.Closes w before x v) → s.Tends w before p v Q) :
    s.Tends w before (do
      let _ ← Checkpoint.advance s.config.namespaceName w value
      Routine.measure (.checkpoint w value)
      p) u Q := by
  have number : (u.1 (s.key w)).getD 0 = before.getD 0 := by rw [hu.ints]
  have lower : ¬ value < before.getD 0 := UInt64.not_lt.2 (UInt64.le_of_lt above)
  have other : value ≠ before.getD 0 := fun same => UInt64.lt_irrefl _ (same ▸ above)
  refine ensures_bind (tends_advance (fun _ _ rest => (hu.rests rest).closes)
    (fun less => absurd (number ▸ less) lower) (fun same => absurd (number ▸ same) other) ?_)
  intro _ v ints noted
  refine ensures_bind (tends_show fun z ints' noted' => hQ z fun x => ?_)
  refine .told value (by rw [ints', ints]) ?_ (Watermark.shows_of_isPrompt prompt x value)
  rw [noted', noted, hu.latest]

section Spares
variable {loops : Loop → Prop} {q : Request}

theorem spares_of_pages (h : s.pages t q) : s.spares w q := by
  cases q with
  | measure m =>
    cases m with
    | checkpoint k v => exact h.elim
    | _ => trivial
  | store c => exact h.elim
  | _ => trivial

theorem spares_of_samples (h : s.samples r q) : s.spares w q := by
  cases q with
  | store c =>
    cases c with
    | setInt key value =>
      obtain rfl : key = _ := h
      exact s.averageKey_ne_key r w
    | _ => trivial
  | measure m =>
    cases m with
    | checkpoint k v => exact h.elim
    | _ => trivial
  | _ => trivial

theorem spares_advance (other : k ≠ w) :
    (Checkpoint.advance s.config.namespaceName k value).Within (s.spares w) loops := by
  have read : (Checkpoint.get s.config.namespaceName k).Within (s.spares w) loops :=
    within_bind (within_store trivial) fun _ => within_pure
  have written : (Routine.store (.setInt (s.key k) value)).Within (s.spares w) loops :=
    within_store fun same => other (s.key_inj.1 same)
  refine within_bind read fun current => ?_
  split_ifs
  · exact within_pure
  · exact within_pure
  · exact within_bind written fun _ => within_pure

theorem spares_recordHead {oldHead newHead n : UInt64} (other : .head ≠ w) :
    (s.recordHead oldHead newHead n).Within (s.spares w) loops :=
  within_bind (spares_advance other) fun _ =>
    within_bind (within_measure other) fun _ => within_pure

theorem spares_recordDuration :
    (s.recordDuration r).Within (s.spares w) loops :=
  (samples_recordDuration r).mono fun _ => spares_of_samples

theorem spares_recordBatch {stored latest n : UInt64} (other : r.batch ≠ w) :
    (s.recordBatch r stored latest n).Within (s.spares w) loops :=
  within_bind (spares_advance other) fun _ => within_bind (within_measure other) fun _ =>
    within_bind spares_recordDuration fun _ => within_pure

end Spares

theorem tends_reads {Q : UInt64 → Watermark.View → Prop}
    (hu : s.Unchanged w before u)
    (hQ : ∀ stored v, s.Unchanged w before v → (k = w → stored = before.getD 0) → Q stored v) :
    s.Tends w before (Checkpoint.get s.config.namespaceName k) u Q := by
  by_cases same : k = w
  · subst same
    refine tends_get (fun _ _ rest => (hu.rests rest).closes) fun v rest => ?_
    exact hQ _ v (hu.rests rest) fun _ => by rw [hu.ints]
  · have read : (Checkpoint.get s.config.namespaceName k).Within (s.spares w) (s.scans w.owner) :=
      within_bind (within_store trivial) fun _ => within_pure
    exact tends_unchanged read hu fun stored v hv => hQ stored v hv fun h => absurd h same

theorem tends_scan {sc : Scan} {Q : ScanSummary → Watermark.View → Prop}
    (dispatcher : sc.dispatcher = s.dispatcher) (status : sc.status = w.owner.status)
    (hu : s.Unchanged w before u) (hQ : ∀ summary v, s.Unchanged w before v → Q summary v) :
    s.Tends w before sc.run u Q :=
  tends_unchanged ((pages_scan (t := w.owner) fun _ _ => ⟨dispatcher, status⟩).mono
    fun _ => spares_of_pages) hu hQ

theorem tends_recordHead {oldHead newHead n : UInt64} (hu : s.Unchanged .head before u)
    (above : before.getD 0 < newHead) :
    s.Tends .head before (s.recordHead oldHead newHead n) u
      fun o v => s.Closes .head before (.ok o) v :=
  tends_advance_show rfl hu above fun _ closed => tends_closed within_pure closed

theorem tends_sweepMaturity (owner : w.owner = .maturity) (hu : s.Unchanged w before u) :
    s.Tends w before s.sweepMaturity u fun o v => s.Closes w before (.ok o) v := by
  refine ensures_bind (tends_reads hu fun oldHead v hv stored => ?_)
  refine ensures_bind (tends_unchanged (within_chain trivial) hv fun newHead v hv => ?_)
  split_ifs with le
  · exact ensures_pure hv.closes
  refine ensures_bind (tends_unchanged (within_lift (Program.within_request trivial)) hv
    fun depth v hv => ?_)
  refine ensures_bind (tends_unchanged (within_store trivial) hv fun lastScanned v hv => ?_)
  generalize matured? oldHead newHead depth lastScanned = window
  cases w with
  | head =>
    have above : before.getD 0 < newHead := stored rfl ▸ UInt64.not_le.1 le
    cases window with
    | none => exact tends_recordHead hv above
    | some range =>
      refine ensures_bind (tends_scan rfl rfl hv fun summary v hv => ?_)
      refine ensures_bind (tends_unchanged (spares_advance nofun) hv fun _ v hv => ?_)
      exact tends_recordHead hv above
  | scanned =>
    have hidden : ∀ {n : UInt64} {v}, (∀ x, s.Closes .scanned before x v) →
        s.Tends .scanned before (s.recordHead oldHead newHead n) v
          fun o v => s.Closes .scanned before (.ok o) v :=
      fun closed => tends_closed (spares_recordHead nofun) closed
    cases window with
    | none => exact hidden fun _ => hv.closes
    | some range =>
      refine ensures_bind (tends_scan rfl rfl hv fun summary v hv => ?_)
      refine ensures_bind (tends_advance (fun _ _ rest => (hv.rests rest).closes)
        (fun _ v rest => hidden fun _ => (hv.rests rest).closes)
        (fun _ v rest => hidden fun _ => (hv.rests rest).closes) ?_)
      intro higher v ints noted
      refine hidden fun x => .hidden range.high ⟨ints, ?_, fun b hb => ?_⟩
        (Watermark.not_shows_scanned x range.high)
      · rw [noted, hv.latest]
        rfl
      · rw [hv.ints, Option.mem_def.1 hb] at higher
        exact higher
  | _ => cases owner

theorem tends_recordBatch {stored latest n : UInt64} (hu : s.Unchanged r.batch before u)
    (above : before.getD 0 < latest) :
    s.Tends r.batch before (s.recordBatch r stored latest n) u
      fun o v => s.Closes r.batch before (.ok o) v :=
  tends_advance_show (by cases r <;> rfl) hu above fun _ closed =>
    tends_closed (within_bind spares_recordDuration fun _ => within_pure) closed

theorem tends_settleBatch {newCeiling stored latest n : UInt64} (other : r.batch ≠ r.ceiling)
    (hu : s.Unchanged r.ceiling before u) :
    s.Tends r.ceiling before (s.settleBatch r newCeiling stored latest n) u
      fun o v => s.Closes r.ceiling before (.ok o) v := by
  have prompt : r.ceiling.isPrompt = true := by cases r <;> rfl
  have recorded : ∀ {v}, (∀ x, s.Closes r.ceiling before x v) →
      s.Tends r.ceiling before (s.recordBatch r stored latest n) v
        fun o v => s.Closes r.ceiling before (.ok o) v :=
    fun closed => tends_closed (spares_recordBatch other) closed
  refine ensures_bind (tends_advance (fun _ _ rest => (hu.rests rest).closes)
    (fun _ v rest => recorded fun _ => (hu.rests rest).closes) (fun same v rest => ?_) ?_)
  · -- The same ceiling: shown although it is not written.
    have hv := hu.rests rest
    refine ensures_bind (tends_show fun z ints noted => recorded fun x => ?_)
    refine .still ((congrFun ints _).trans hv.ints) (by rw [noted, hv.latest]; rfl) ?_
    intro g hg
    rw [noted] at hg
    obtain rfl : newCeiling = g := Option.some.inj hg
    exact ⟨prompt, by rw [same, hu.ints]⟩
  · intro higher v ints noted
    refine ensures_bind (tends_show fun z ints' noted' => recorded fun x => ?_)
    have shows := Watermark.shows_of_isPrompt prompt x newCeiling
    exact .told newCeiling (by rw [ints', ints]) (by rw [noted', noted, hu.latest]) shows

theorem tends_sweepBatch (owner : w.owner = .batch r) (hu : s.Unchanged w before u) :
    s.Tends w before (s.sweepBatch r) u fun o v => s.Closes w before (.ok o) v := by
  refine ensures_bind (tends_unchanged (within_chain trivial) hu fun latest v hv => ?_)
  refine ensures_bind (tends_reads hv fun stored v hv number => ?_)
  split_ifs with le
  · exact ensures_pure hv.closes
  refine ensures_bind (tends_unchanged (within_chain trivial) hv fun newCeiling v hv => ?_)
  refine ensures_bind (tends_reads hv fun oldCeiling v hv _ => ?_)
  have settled : ∀ {n : UInt64} {v}, s.Unchanged w before v →
      s.Tends w before (s.settleBatch r newCeiling stored latest n) v
        fun o v => s.Closes w before (.ok o) v := by
    intro n v hv
    by_cases batch : w = r.batch
    · subst batch
      have other : r.ceiling ≠ r.batch := by cases r <;> decide
      have above : before.getD 0 < latest := number rfl ▸ UInt64.not_le.1 le
      refine ensures_bind (tends_unchanged (spares_advance other) hv fun moved v hv => ?_)
      cases moved with
      | false => exact tends_recordBatch hv above
      | true =>
        refine ensures_bind (tends_unchanged (within_measure other) hv fun _ v hv => ?_)
        exact tends_recordBatch hv above
    · obtain rfl : w = r.ceiling := by
        cases w <;> cases r <;> first | rfl | exact absurd rfl batch | cases owner
      exact tends_settleBatch (Ne.symm batch) hv
  split_ifs
  · have status : r.status = w.owner.status := by rw [owner]; rfl
    refine ensures_bind (tends_scan rfl status hv fun summary v hv => ?_)
    exact settled hv
  · exact settled hv

section Feeds
variable {last dispatched id : UInt64}

theorem lt_lastId {α : Type} {rows : List (UInt64 × α)}
    (ascends : rows.all (fun row => last < row.1) = true) :
    ∀ id ∈ rows.getLast?.map Prod.fst, last < id := by
  intro id mem
  obtain ⟨row, found, rfl⟩ := Option.map_eq_some_iff.1 mem
  exact of_decide_eq_true (List.all_eq_true.1 ascends row (List.mem_of_getLast? found))

theorem Pursues.rests (h : s.Pursues w before last u) (rest : s.Rests w u v) :
    s.Pursues w before last v :=
  h.imp (fun h => ⟨h.1, h.2.rests rest⟩) fun h => h.rests rest

theorem Pursues.number (h : s.Pursues w before last u) : u.1 (s.key w) = some last := by
  obtain ⟨rfl, h⟩ | h := h
  · exact h.ints
  · exact h.ints

theorem Pursues.failed (h : s.Pursues w before last u) (feed : f.watermark = w) (err : Error) :
    s.Closes w before (.error err) u := by
  subst feed
  obtain ⟨-, h⟩ | h := h
  · exact h.closes
  · exact .hidden last h (Watermark.not_shows_feed fun _ _ => nofun)

theorem Pursues.next (h : s.Pursues w before last u) (above : last < id)
    (ints : v.1 (s.key w) = some id) (noted : v.2 = { u.2 with written := some id }) :
    s.Pursues w before id v := by
  obtain ⟨rfl, h⟩ | h := h
  · refine .inr ⟨ints, by rw [noted, h.latest]; rfl, fun b hb => ?_⟩
    obtain rfl := Option.some.inj hb
    exact above
  · refine .inr ⟨ints, by rw [noted, h.latest], fun b hb => ?_⟩
    exact UInt64.lt_trans (h.later b hb) above

theorem tends_feedPage {Q : FeedPage → Watermark.View → Prop}
    (feed : f.watermark = w) (hu : s.Pursues w before last u)
    (hQ : ∀ page v, s.Pursues w before last v → (∀ id ∈ page.lastId, last < id) → Q page v) :
    s.Tends w before (s.feedPage f last) u Q := by
  cases f with
  | deposits =>
    refine ensures_bind (ensures_records fun x v hv => ⟨trivial, ?_⟩)
    have hu := hu.rests (rests_of_spares (e := ⟨_, x⟩) trivial hv)
    cases x with
    | error err => exact hu.failed feed err
    | ok rows =>
      refine ensures_bind (tends_rest
        (within_lift ((pages_created rows).mono fun _ => spares_of_pages))
        (fun err _ rest => (hu.rests rest).failed feed err) fun sent z rest => ?_)
      exact ensures_pure (hQ _ z (hu.rests rest) (lt_lastId hv.1.1))
  | claims =>
    refine ensures_bind (ensures_records fun x v hv => ⟨trivial, ?_⟩)
    have hu := hu.rests (rests_of_spares (e := ⟨_, x⟩) trivial hv)
    cases x with
    | error err => exact hu.failed feed err
    | ok rows =>
      refine ensures_bind (tends_rest ((pages_announceClaims rows).mono fun _ => spares_of_pages)
        (fun err _ rest => (hu.rests rest).failed feed err) fun sent z rest => ?_)
      exact ensures_pure (hQ _ z (hu.rests rest) (lt_lastId hv.1.1))

theorem tends_feedRound (feed : f.watermark = w) (hu : s.Pursues w before last u) :
    s.Tends w before (s.feedRound f last dispatched) u fun r v => s.Pursues w before r.1 v := by
  refine ensures_bind (tends_feedPage feed hu fun page v hv above => ?_)
  refine ensures_bind (tends_rest (within_measure trivial)
    (fun err _ rest => (hv.rests rest).failed feed err) fun _ v rest => ?_)
  have hv := hv.rests rest
  have left : ∀ {last : UInt64} {v}, s.Pursues w before last v → s.Tends w before (do
      if page.rows < s.pageSize.toUInt64 then return (last, dispatched + page.dispatched)
      ofProgram (Program.loop (.feed s f last (dispatched + page.dispatched)))) v
      fun r v => s.Pursues w before r.1 v := by
    intro last v hv
    split_ifs
    · exact ensures_pure hv
    · refine ⟨⟨rfl, feed, hv⟩, fun r z _ hz => ?_⟩
      cases r with
      | ok ends => exact hz
      | error err => exact hz
  obtain ⟨rows, lastId, sent⟩ := page
  cases lastId with
  | none => exact ensures_bind (ensures_pure (left hv))
  | some id =>
    have above : last < id := above id rfl
    have number : (v.1 (s.key w)).getD 0 = last := by rw [hv.number]; rfl
    subst feed
    refine ensures_bind (tends_advance (fun err _ rest => (hv.rests rest).failed rfl err)
      (fun less => ?_) (fun same => ?_) fun _ z ints noted => ?_)
    · rw [number] at less
      exact absurd above (UInt64.lt_asymm less)
    · rw [number] at same
      exact absurd (same ▸ above) (UInt64.lt_irrefl _)
    · exact ensures_bind (ensures_pure (left (hv.next above ints noted)))

theorem tends_seed (hu : s.Unchanged f.watermark none u) :
    s.Tends f.watermark none (Checkpoint.seed s.config.namespaceName f.watermark value) u
      fun _ v => s.Closes f.watermark none (.ok .noChange) v := by
  refine ensures_bind (tends_get? (fun _ _ rest => (hu.rests rest).closes) fun v rest => ?_)
  have unset : (u.1 (s.key f.watermark)).isSome ≠ true := by
    rw [hu.ints]
    exact nofun
  simp only [if_neg unset]
  refine ensures_bind (tends_write (fun _ _ rest' => (hu.rests (rest.trans rest')).closes) ?_)
  intro z ints noted
  refine ensures_pure (.hidden value ⟨ints, ?_, nofun⟩ (Watermark.not_shows_feed fun _ _ => nofun))
  rw [noted, rest.latest, hu.latest]
  rfl

theorem tends_feedEnd {start : UInt64} (hu : s.Pursues f.watermark (some start) last u) :
    s.Tends f.watermark (some start) (do
      if last = start then return .noChange
      Routine.measure (.checkpoint f.watermark last)
      return .advanced start last dispatched) u
      fun o v => s.Closes f.watermark (some start) (.ok o) v := by
  split_ifs with same
  · subst same
    obtain ⟨-, hu⟩ | hu := hu
    · exact ensures_pure hu.closes
    · exact absurd (hu.later last rfl) (UInt64.lt_irrefl last)
  · obtain ⟨other, -⟩ | hu := hu
    · exact absurd (Option.some.inj other).symm same
    · refine ensures_bind (tends_show fun v ints noted => ?_)
      refine ensures_pure (.told last (by rw [ints, hu.ints]) (by rw [noted, hu.latest]) ?_)
      exact ⟨by cases f <;> exact nofun, fun f' hf => ⟨start, dispatched, rfl⟩⟩

theorem tends_sweepFeed (hu : s.Unchanged f.watermark before u) :
    s.Tends f.watermark before (s.sweepFeed f) u
      fun o v => s.Closes f.watermark before (.ok o) v := by
  refine ensures_bind (tends_get? (fun _ _ rest => (hu.rests rest).closes) fun v rest => ?_)
  have hv := hu.rests rest
  rw [hu.ints]
  cases before with
  | none =>
    have asked : (latestId f).Within (s.spares f.watermark) (s.scans f.watermark.owner) := by
      cases f <;> exact within_records trivial
    refine ensures_bind (tends_unchanged asked hv fun latest v hv => ?_)
    exact ensures_bind ((tends_seed hv).mono fun _ _ hz => ensures_pure hz)
  | some start =>
    refine ensures_bind ⟨⟨rfl, rfl, .inl ⟨rfl, hv⟩⟩, fun r z _ hz => ?_⟩
    cases r with
    | error err => exact hz
    | ok ends => exact tends_feedEnd hz

end Feeds

theorem tending_kept : (s.tending w before).Kept (s.watching w) fun _ => True := by
  rintro (⟨sc, offset, summary⟩ | ⟨s', f, last, dispatched⟩ | ⟨l, deadline⟩ | ⟨s', t, i, deadline⟩)
    v - hn
  · obtain ⟨dispatcher, status⟩ := hn
    exact ensures_rest ((pages_page (fun _ _ => ⟨dispatcher, status⟩) dispatcher status).mono
      fun _ => spares_of_pages)
  · obtain ⟨rfl, feed, hv⟩ := hn
    exact tends_feedRound feed hv
  · exact hn.elim
  · exact hn.elim

theorem tends_sweep (hu : s.Unchanged w before u) :
    s.Tends w before (s.sweep w.owner) u fun o v => s.Closes w before (.ok o) v := by
  cases w with
  | head | scanned => exact tends_sweepMaturity rfl hu
  | committedBatch | committedCeiling | verifiedBatch | verifiedCeiling =>
    exact tends_sweepBatch rfl hu
  | depositFeed => exact tends_sweepFeed (f := .deposits) hu
  | claimFeed => exact tends_sweepFeed (f := .claims) hu

theorem tends_tick (hu : s.Unchanged w before u) :
    s.Tends w before (s.tick w.owner) u fun o v => s.Closes w before (.ok o) v := by
  have acquire : (Lock.acquire (s.lockKey w.owner) s.config.lockTtl).Within (s.spares w)
      (s.scans w.owner) := by
    refine within_bind (within_lift (Program.within_request trivial)) fun token => ?_
    refine within_bind (within_store trivial) fun taken => ?_
    cases taken with
    | false => exact within_pure
    | true =>
      exact within_bind (within_lift (Program.within_request trivial)) fun _ => within_pure
  refine ensures_guarded (tends_unchanged acquire hu fun l v hv => ?_)
  cases l with
  | none => exact hv.closes
  | some l =>
    refine Program.Ensures.mono (tends_sweep hv) fun x z hz => ?_
    have release : (Lock.release l).Within (s.spares w) (s.scans w.owner) :=
      Program.within_bind (Program.within_request trivial) fun _ =>
        Program.within_bind (Program.within_request trivial) fun _ => trivial
    refine (ensures_rest release).mono fun _ y rest => ?_
    cases x with
    | ok o => exact Closes.rests hz rest
    | error err => exact Closes.rests hz rest

def latestOf (s : Setup) (w : Watermark) (es : List Event) : Watermark.Latest :=
  es.foldl (Watermark.Latest.next (s.key w) w) .start

theorem latestOf_concat (es : List Event) (e : Event) :
    s.latestOf w (es ++ [e]) = (s.latestOf w es).next (s.key w) w e :=
  List.foldl_concat ..

/-- What a tick that has come to its result wrote and showed of a watermark of its task. -/
theorem closes_of_leads {ints ints' : String → Option UInt64} {es : List Event}
    (run : (s.tick w.owner).run.Leads (numbers.only fun e => e.ascends = true) ints es (.done x)
      ints') :
    s.Closes w (ints (s.key w)) x (ints', s.latestOf w es) := by
  have ended := Program.Ensures.result (tends_tick ⟨rfl, rfl⟩) tending_kept trivial
    (run.noted (Watermark.Latest.next (s.key w) w) .start)
  cases x with
  | ok o => exact ended
  | error err => exact ended

end Setup
end BridgeNotifier
