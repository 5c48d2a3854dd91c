import BridgeNotifier.Proofs.DepthReload
import BridgeNotifier.Proofs.LaterTicks
import BridgeNotifier.Proofs.Phases
import BridgeNotifier.Proofs.WindowBound
set_option autoImplicit false

/-!
# One sample per batch

A batch tick takes its sample last, once the batch is stored. Whatever fails on the way, no batch is
sampled before it is stored, and none twice; a batch is left without a sample only by a tick that
was cut off after it had stored it.
-/
namespace BridgeNotifier
open Surroundings

/-- The batch numbers that were stored, for each sample that was taken the number stored last before
it, and whether no call of the store has failed since a number was stored. -/
structure Observed where
  stored : List UInt64
  sampled : List (Option UInt64)
  sound : Bool
  deriving DecidableEq

namespace Observed

def start : Observed :=
  ⟨[], [], true⟩

def next (batch window : String) (o : Observed) : Event → Observed
  | ⟨.store (.setInt key value), .ok _⟩ =>
    if key = batch then ⟨o.stored ++ [value], o.sampled, true⟩ else o
  | ⟨.store (.push key _), .ok _⟩ =>
    if key = window then { o with sampled := o.sampled ++ [o.stored.getLast?] } else o
  | ⟨.store _, .error _⟩ => { o with sound := false }
  | _ => o

end Observed

namespace Setup

variable (s : Setup) (r : Role)

def observed (es : List Event) : Observed :=
  es.foldl (Observed.next (s.key r.batch) (s.estimator r).windowKey) .start

abbrev observing : Surroundings (Memory × Observed) :=
  shared.noted (Observed.next (s.key r.batch) (s.estimator r).windowKey)

def Spares : Request → Prop
  | .store (.setInt key _) => key ≠ s.key r.batch
  | .store (.push key _) => key ≠ (s.estimator r).windowKey
  | _ => True

end Setup

namespace Setup

variable {s : Setup} {r : Role} {w u v : Memory × Observed}

structure Resting (s : Setup) (r : Role) (w u : Memory × Observed) : Prop where
  ints : u.1.ints (s.key r.batch) = w.1.ints (s.key r.batch)
  stored : u.2.stored = w.2.stored
  sampled : u.2.sampled = w.2.sampled
  sound : u.2.sound = true → w.2.sound = true

theorem Resting.refl (w : Memory × Observed) : s.Resting r w w :=
  ⟨rfl, rfl, rfl, id⟩

theorem Resting.trans (h : s.Resting r w u) (h' : s.Resting r u v) : s.Resting r w v where
  ints := h'.ints.trans h.ints
  stored := h'.stored.trans h.stored
  sampled := h'.sampled.trans h.sampled
  sound := fun hv => h.sound (h'.sound hv)

theorem next_of_spares {e : Event} (spares : s.Spares r e.request) (o : Observed) :
    o.next (s.key r.batch) (s.estimator r).windowKey e = o ∨
      o.next (s.key r.batch) (s.estimator r).windowKey e = { o with sound := false } := by
  obtain ⟨q, x⟩ := e
  cases q with
  | store c =>
    cases x with
    | error err => exact .inr (by cases c <;> rfl)
    | ok a =>
      cases c with
      | setInt key value => exact .inl (if_neg spares)
      | push key secs => exact .inl (if_neg spares)
      | _ => exact .inl rfl
  | _ => exact .inl rfl

theorem ints_of_spares {m n : Memory} {e : Event} (spares : s.Spares r e.request)
    (h : shared m e n) : n.ints (s.key r.batch) = m.ints (s.key r.batch) :=
  numbers_of_ne (numbers_of_shared h) fun _ same => absurd rfl (same ▸ spares)

theorem resting_of_spares {e : Event} (spares : s.Spares r e.request) (h : s.observing r w e u) :
    s.Resting r w u := by
  obtain ⟨shared, note⟩ := h
  have ints := ints_of_spares spares shared
  obtain same | failed := next_of_spares spares w.2
  · rw [same] at note
    exact ⟨ints, by rw [note], by rw [note], fun sound => note ▸ sound⟩
  · rw [failed] at note
    exact ⟨ints, by rw [note], by rw [note], fun sound => by simp [note] at sound⟩

end Setup

namespace Setup
open Routine

/-- Where a role stands in a tick that began with a batch number. -/
inductive Accounts (s : Setup) (r : Role) (before : Option UInt64) (w : Memory × Observed) :
    Prop where
  | idle (ints : w.1.ints (s.key r.batch) = before) (stored : w.2.stored = [])
      (sampled : w.2.sampled = [])
  | owing (batch : UInt64) (later : before.getD 0 < batch)
      (ints : w.1.ints (s.key r.batch) = some batch) (stored : w.2.stored = [batch])
      (sampled : w.2.sampled = [])
  | taken (batch : UInt64) (later : before.getD 0 < batch)
      (ints : w.1.ints (s.key r.batch) = some batch) (stored : w.2.stored = [batch])
      (sampled : w.2.sampled = [some batch])

/-- No sample is owing, unless a call of the store has failed. -/
def Settled (s : Setup) (r : Role) (before : Option UInt64) (w : Memory × Observed) : Prop :=
  s.Accounts r before w ∧ (w.2.stored ≠ [] → w.2.sampled = [] → w.2.sound = false)

variable {s : Setup} {r : Role} {before : Option UInt64} {w u : Memory × Observed} {α : Type}

theorem Accounts.resting (h : s.Accounts r before w) (rest : s.Resting r w u) :
    s.Accounts r before u := by
  cases h with
  | idle ints stored sampled =>
    exact .idle (rest.ints.trans ints) (rest.stored.trans stored) (rest.sampled.trans sampled)
  | owing batch later ints stored sampled =>
    exact .owing batch later (rest.ints.trans ints) (rest.stored.trans stored)
      (rest.sampled.trans sampled)
  | taken batch later ints stored sampled =>
    exact .taken batch later (rest.ints.trans ints) (rest.stored.trans stored)
      (rest.sampled.trans sampled)

theorem Settled.resting (h : s.Settled r before w) (rest : s.Resting r w u) :
    s.Settled r before u := by
  refine ⟨h.1.resting rest, fun stored sampled => ?_⟩
  have failed := h.2 (rest.stored ▸ stored) (rest.sampled ▸ sampled)
  by_contra sound
  have sound := rest.sound (by simpa using sound)
  rw [failed] at sound
  cases sound

def rest (s : Setup) (r : Role) (w : Memory × Observed) : Phase (s.observing r) where
  may := s.Spares r
  holds := s.Resting r w
  always := s.Resting r w
  step hw he h := ⟨hw.trans (resting_of_spares he h), fun _ => hw.trans (resting_of_spares he h)⟩

def resting (s : Setup) (r : Role) : Contract (Memory × Observed) where
  needs
    | .scan .., _ => True
    | _, _ => False
  gives _ w _ u := s.Resting r w u

abbrev Walks (s : Setup) (r : Role) (before : Option UInt64) (p : Routine α)
    (w : Memory × Observed) (Q : α → Memory × Observed → Prop) : Prop :=
  p.Ensures (s.observing r) (s.Accounts r before) (s.resting r) (fun _ => s.Settled r before) w Q

theorem ensures_resting {p : Routine α} (passes : (s.rest r w).Passes (s.rest r w).loops p)
    (hw : s.Accounts r before w) : p.run.Ensures (s.observing r) (s.Accounts r before)
      (s.resting r) w fun _ u => s.Resting r w u := by
  have kept := Program.Ensures.weaken (D := s.resting r) (passes w (.refl w)) (.refl w)
    (fun u hu => hw.resting hu) ?_ ?_
  · exact kept.mono fun x u hu => hu.1
  · intro l u _ needs
    cases l with
    | scan => trivial
    | feed => exact absurd rfl (needs.2 (.store (.setInt (s.key r.batch) 0)) rfl)
    | _ => exact needs
  · intro l u x v hu needs given
    refine ⟨hu.trans given, ?_⟩
    cases l with
    | scan | feed =>
      cases x with
      | ok a => exact hu.trans given
      | error err => trivial
    | _ => exact needs.elim

theorem walks_rest {p : Routine α} {Q : α → Memory × Observed → Prop}
    (passes : (s.rest r w).Passes (s.rest r w).loops p) (hw : s.Settled r before w)
    (hQ : ∀ a u, s.Resting r w u → Q a u) : s.Walks r before p w Q := by
  refine (ensures_resting passes hw.1).mono fun x u hu => ?_
  cases x with
  | ok a => exact hQ a u hu
  | error err => exact hw.resting hu

theorem spares_of_isScanning (q : Request) (hq : q.isScanning = true) : s.Spares r q := by
  cases q with
  | records c | measure m | launch d n => trivial
  | _ => cases hq

theorem resting_kept : (s.resting r).Kept (s.observing r) (s.Accounts r before) := by
  rintro (⟨sc, offset, summary⟩ | ⟨s', f, last, dispatched⟩ | ⟨l, deadline⟩ | ⟨s', t, i, deadline⟩)
    w hw needs
  · exact ensures_resting (Phase.passes_page spares_of_isScanning) hw
  all_goals exact needs.elim

def Untouched (s : Setup) (r : Role) (before : Option UInt64) (w : Memory × Observed) : Prop :=
  w.1.ints (s.key r.batch) = before ∧ w.2.stored = [] ∧ w.2.sampled = []

theorem Untouched.settled (h : s.Untouched r before w) : s.Settled r before w :=
  ⟨.idle h.1 h.2.1 h.2.2, fun stored => absurd h.2.1 stored⟩

theorem Untouched.resting (h : s.Untouched r before w) (rest : s.Resting r w u) :
    s.Untouched r before u :=
  ⟨rest.ints.trans h.1, rest.stored.trans h.2.1, rest.sampled.trans h.2.2⟩

theorem walks_untouched {p : Routine α} {Q : α → Memory × Observed → Prop}
    (passes : ∀ w, (s.rest r w).Passes (s.rest r w).loops p) (hw : s.Untouched r before w)
    (hQ : ∀ a u, s.Untouched r before u → Q a u) : s.Walks r before p w Q :=
  walks_rest (passes w) hw.settled fun a u rest => hQ a u (hw.resting rest)

theorem walks_get {Q : UInt64 → Memory × Observed → Prop} (hw : s.Untouched r before w)
    (hQ : ∀ u, s.Untouched r before u → Q (before.getD 0) u) :
    s.Walks r before (Checkpoint.get s.config.namespaceName r.batch) w Q := by
  refine ensures_bind (ensures_store fun x u hu => ?_)
  have spares : s.Spares r (.store (.getInt (s.key r.batch))) := trivial
  have still := hw.resting (resting_of_spares (e := ⟨_, x⟩) spares hu)
  refine ⟨still.settled.1, ?_⟩
  cases x with
  | error err => exact still.settled
  | ok v =>
    obtain ⟨rfl, -⟩ : v = w.1.ints (s.key r.batch) ∧ _ := numbers_of_shared hu.1
    rw [hw.1]
    exact ensures_pure (hQ u still)

/-- The batch has just been stored, and no call of the store has failed since. -/
def Owing (s : Setup) (r : Role) (before : Option UInt64) (batch : UInt64)
    (w : Memory × Observed) : Prop :=
  before.getD 0 < batch ∧ w.1.ints (s.key r.batch) = some batch ∧ w.2 = ⟨[batch], [], true⟩

theorem Owing.accounts {batch : UInt64} (h : s.Owing r before batch w) : s.Accounts r before w :=
  .owing batch h.1 h.2.1 (by rw [h.2.2]) (by rw [h.2.2])

theorem walks_storeBatch {batch : UInt64} {Q : Bool → Memory × Observed → Prop}
    (hw : s.Untouched r before w) (later : before.getD 0 < batch)
    (hQ : ∀ a u, s.Owing r before batch u → Q a u) :
    s.Walks r before (Checkpoint.advance s.config.namespaceName r.batch batch) w Q := by
  refine ensures_bind (walks_get hw fun u hu => ?_)
  have higher : ¬ batch < before.getD 0 := UInt64.not_lt.2 (UInt64.le_of_lt later)
  have other : batch ≠ before.getD 0 := fun same => UInt64.lt_irrefl _ (same ▸ later)
  simp only [if_neg higher, if_neg other]
  refine ensures_bind (ensures_store fun x v hv => ?_)
  obtain ⟨answer, note⟩ := hv
  have written := numbers_of_shared answer
  cases x with
  | ok done =>
    have owing : s.Owing r before batch v := by
      refine ⟨later, ?_, ?_⟩
      · exact (congrFun written _).trans (Function.update_self ..)
      · rw [note]
        simp [Observed.next, Watermark.key, Setup.key, hu.2.1, hu.2.2]
    exact ⟨owing.accounts, ensures_pure (hQ true v owing)⟩
  | error err =>
    have ints : v.1.ints = u.1.ints := written
    have still : s.Untouched r before v := by
      rw [Untouched, ints, note]
      exact ⟨hu.1, hu.2.1, hu.2.2⟩
    exact ⟨still.settled.1, still.settled⟩

theorem walks_told {q : Request} {Q : q.Reply → Memory × Observed → Prop} (hq : ∀ c, q ≠ .store c)
    (hw : s.Accounts r before w) (hQ : ∀ x, Q x w) :
    s.Walks r before (ExceptT.lift (Program.request q)) w Q := by
  refine ensures_lift fun x u hu => ?_
  have same : u = w := by
    obtain ⟨answer, note⟩ := hu
    cases q with
    | store c => exact absurd rfl (hq c)
    | _ => exact Prod.ext answer note
  rw [same]
  exact ⟨hw, hQ x⟩

theorem walks_push {batch secs : UInt64} {Q : UInt64 → Memory × Observed → Prop}
    (hw : s.Owing r before batch w)
    (hQ : ∀ a u, s.Settled r before u → Q a u) :
    s.Walks r before ((s.estimator r).pushSample secs) w Q := by
  refine ensures_store fun x u hu => ?_
  obtain ⟨later, stored, owing⟩ := hw
  obtain ⟨answer, note⟩ := hu
  rw [owing] at note
  have ints : u.1.ints (s.key r.batch) = some batch :=
    (congrFun (eq_of_numbers (numbers_of_shared answer) (by cases x <;> rfl)) _).trans stored
  cases x with
  | ok length =>
    have noted : u.2 = ⟨[batch], [some batch], true⟩ := by
      rw [note]
      exact if_pos rfl
    have taken : s.Settled r before u :=
      ⟨.taken batch later ints (by rw [noted]) (by rw [noted]),
        fun _ none => by simp [noted] at none⟩
    exact ⟨taken.1, hQ length u taken⟩
  | error err =>
    have noted : u.2 = ⟨[batch], [], false⟩ := note
    have failed : s.Settled r before u :=
      ⟨.owing batch later ints (by rw [noted]) (by rw [noted]), fun _ _ => by rw [noted]⟩
    exact ⟨failed.1, failed⟩

theorem walks_pushed {length secs : UInt64} (hw : s.Settled r before w) :
    s.Walks r before (if length ≤ (s.estimator r).window.capacity then pure (.filling length)
      else (s.estimator r).overflowed secs length) w fun _ u => s.Settled r before u := by
  refine walks_rest ?_ hw fun _ _ rest => hw.resting rest
  split
  · exact Phase.passes_pure
  · refine Phase.passes_bind (Phase.passes_store trivial) fun oldest => ?_
    generalize averageInterval secs oldest (length - 1) = average
    cases average with
    | none => exact Phase.passes_pure
    | some average =>
      rw [Estimator.judged_eq]
      split
      · exact Phase.passes_bind (Phase.passes_store (s.averageKey_ne_key r r.batch))
          fun _ => Phase.passes_pure
      · exact Phase.passes_pure

theorem walks_recordDuration {batch : UInt64} (hw : s.Owing r before batch w) :
    s.Walks r before (s.recordDuration r) w fun _ u => s.Settled r before u := by
  refine ensures_bind (walks_told nofun hw.accounts fun now => ?_)
  refine ensures_bind (ensures_bind (walks_push hw fun length u hu => ?_))
  refine (walks_pushed hu).mono fun outcome v hv => ?_
  cases outcome with
  | filling k => exact ensures_pure hv
  | overflow => exact ensures_pure hv
  | accepted average => exact walks_told nofun hv.1 fun _ => hv
  | rejected average => exact walks_told nofun hv.1 fun _ => hv

theorem walks_recordBatch {batch dispatched : UInt64} (hw : s.Untouched r before w)
    (later : before.getD 0 < batch) :
    s.Walks r before (s.recordBatch r (before.getD 0) batch dispatched) w
      fun _ u => s.Settled r before u := by
  refine ensures_bind (walks_storeBatch hw later fun _ u owing => ?_)
  refine ensures_bind (walks_told nofun owing.accounts fun _ => ?_)
  exact ensures_bind ((walks_recordDuration owing).mono fun _ v hv => ensures_pure hv)

theorem passes_ceiling {C : Contract (Memory × Observed)} {ceiling : UInt64} :
    (s.rest r w).Passes C (Checkpoint.advance s.config.namespaceName r.ceiling ceiling) := by
  refine Phase.passes_bind (Phase.passes_get fun _ => trivial) fun current => ?_
  split
  · exact Phase.passes_pure
  · split
    · exact Phase.passes_pure
    · exact Phase.passes_bind (Phase.passes_store (s.ceiling_ne_batch r)) fun _ => Phase.passes_pure

theorem walks_settleBatch {ceiling batch dispatched : UInt64} (hw : s.Untouched r before w)
    (later : before.getD 0 < batch) :
    s.Walks r before (s.settleBatch r ceiling (before.getD 0) batch dispatched) w
      fun _ u => s.Settled r before u := by
  refine ensures_bind (walks_untouched (fun _ => passes_ceiling) hw fun moved u hu => ?_)
  cases moved with
  | false => exact walks_recordBatch hu later
  | true =>
    exact ensures_bind (walks_told nofun hu.settled.1 fun _ => walks_recordBatch hu later)

/-- A batch sweep ends with the sample of the batch that it stored, or after a call that failed. -/
theorem walks_sweepBatch (hw : s.Untouched r before w) :
    s.Walks r before (s.sweepBatch r) w fun _ u => s.Settled r before u := by
  refine ensures_bind (walks_untouched (fun _ => Phase.passes_chain trivial) hw
    fun latest u hu => ?_)
  refine ensures_bind (walks_get hu fun u hu => ?_)
  by_cases old : latest ≤ before.getD 0
  · simp only [if_pos old]
    exact ensures_pure hu.settled
  simp only [if_neg old]
  have later : before.getD 0 < latest := UInt64.not_le.1 old
  refine ensures_bind (walks_untouched (fun _ => Phase.passes_chain trivial) hu
    fun newCeiling u hu => ?_)
  refine ensures_bind (walks_untouched (fun _ => Phase.passes_get fun _ => trivial) hu
    fun oldCeiling u hu => ?_)
  split
  · refine ensures_bind (walks_untouched (fun _ => Phase.passes_scan spares_of_isScanning) hu
      fun summary u hu => ?_)
    exact ensures_bind (ensures_pure (walks_settleBatch hu later))
  · exact ensures_bind (ensures_pure (walks_settleBatch hu later))

theorem spares_of_isGuard {q : Request} (h : q.isGuard = true) : s.Spares r q := by
  cases q with
  | store c =>
    cases c with
    | setInt | push => cases h
    | _ => trivial
  | _ => trivial

theorem walks_tick (hw : s.Untouched r before w) :
    s.Walks r before (s.tick (.batch r)) w fun _ u => s.Settled r before u := by
  have acquired : ∀ w, (s.rest r w).Passes (s.rest r w).loops
      (Lock.acquire (s.lockKey (.batch r)) s.config.lockTtl) :=
    fun w => Phase.passes_acquire fun _ => spares_of_isGuard
  refine ensures_guarded (walks_untouched acquired hw fun l u hu => ?_)
  cases l with
  | none => exact hu.settled
  | some l =>
    refine Program.Ensures.mono (walks_sweepBatch hu) fun x v hv => ?_
    have settled : s.Settled r before v := by cases x <;> exact hv
    have ends : ∀ y, s.Settled r before y →
        Ends (fun _ => s.Settled r before) (fun _ => s.Settled r before) x y := by
      cases x <;> exact fun _ hy => hy
    refine Program.ensures_bind fun given y hy => ?_
    have stopped := settled.resting (resting_of_spares (e := ⟨_, given⟩) trivial hy)
    refine ⟨stopped.1, Program.ensures_bind fun released z hz => ?_⟩
    have left := stopped.resting (resting_of_spares (e := ⟨_, released⟩) trivial hz)
    exact ⟨left.1, ends z left⟩

theorem resting_of_events {p q : Program α} {es : List Event}
    (run : p.Leads (s.observing r) w es q u) (spares : ∀ e ∈ es, s.Spares r e.request) :
    s.Resting r w u := by
  induction run with
  | refl p w => exact .refl w
  | ask h rest ih =>
    obtain ⟨first, others⟩ := List.forall_mem_cons.1 spares
    exact (resting_of_spares first h).trans (ih others)
  | call rest ih => exact ih spares

theorem resting_of_leads {t : Task} (other : t ≠ .batch r) {es : List Event}
    {p : Program (Except Error Outcome)} (run : (s.tick t).run.Leads (s.observing r) w es p u) :
    s.Resting r w u := by
  have owner : r.batch.owner = .batch r := by cases r <;> rfl
  refine resting_of_events run fun e he => ?_
  obtain asks | guard := requests_of_tick run e he
  · obtain ⟨q, x⟩ := e
    cases q with
    | store c =>
      cases c with
      | setInt key value =>
        rintro rfl
        exact s.key_not_mem_owned (by rwa [owner]) asks
      | push key secs =>
        rintro rfl
        exact not_mem_windows (Ne.symm other) (List.mem_singleton.2 rfl) asks
      | _ => trivial
    | _ => trivial
  · exact spares_of_isGuard guard

/-- What a tick does for a role: nothing, or it stores a later batch and then takes one sample of
it, unless it is cut off between the two. -/
theorem accounts_of_leads {t : Task} {m n : Memory} {es : List Event}
    {p : Program (Except Error Outcome)} (run : (s.tick t).run.Leads shared m es p n) :
    s.Accounts r (m.ints (s.key r.batch)) (n, s.observed r es) ∧
      (p.result?.isSome = true → s.Settled r (m.ints (s.key r.batch)) (n, s.observed r es)) := by
  have noted := run.noted (Observed.next (s.key r.batch) (s.estimator r).windowKey) .start
  have start : s.Untouched r (m.ints (s.key r.batch)) (m, .start) := ⟨rfl, rfl, rfl⟩
  by_cases own : t = .batch r
  · subst own
    have walk := walks_tick start
    refine ⟨Program.Ensures.invariant walk resting_kept start.settled.1 noted, fun ended => ?_⟩
    obtain ⟨x, hx⟩ := Option.isSome_iff_exists.1 ended
    obtain rfl := Program.eq_done_of_result? hx
    have settled := Program.Ensures.result walk resting_kept start.settled.1 noted
    cases x <;> exact settled
  · have settled := start.settled.resting (resting_of_leads own noted)
    exact ⟨settled.1, fun _ => settled⟩

def seen (s : Setup) (r : Role) (t : Tick) : Observed :=
  s.observed r t.events

def storedBatches (s : Setup) (r : Role) (ts : List Tick) : List UInt64 :=
  ts.flatMap fun t => (s.seen r t).stored

def sampledBatches (s : Setup) (r : Role) (ts : List Tick) : List (Option UInt64) :=
  ts.flatMap fun t => (s.seen r t).sampled

def batchAfter (s : Setup) (r : Role) (first : Memory) (ts : List Tick) : Option UInt64 :=
  (s.storedBatches r ts).getLast?.or (first.ints (s.key r.batch))

section Runs
variable {first m n : Memory} {ts : List Tick} {t : Task} {es : List Event}
variable {p : Program (Except Error Outcome)}

theorem storedBatches_concat (t : Tick) :
    s.storedBatches r (ts ++ [t]) = s.storedBatches r ts ++ (s.seen r t).stored := by
  simp [storedBatches]

theorem sampledBatches_concat (t : Tick) :
    s.sampledBatches r (ts ++ [t]) = s.sampledBatches r ts ++ (s.seen r t).sampled := by
  simp [sampledBatches]

structure Grown (s : Setup) (r : Role) (first : Memory) (ts : List Tick) (m : Memory) : Prop where
  stored : m.ints (s.key r.batch) = s.batchAfter r first ts
  below : ∀ b ∈ (first.ints (s.key r.batch)).getD 0 :: s.storedBatches r ts,
    b ≤ (m.ints (s.key r.batch)).getD 0
  rising : ((first.ints (s.key r.batch)).getD 0 :: s.storedBatches r ts).Pairwise (· < ·)
  sampled : (s.sampledBatches r ts).Sublist ((s.storedBatches r ts).map some)

theorem Grown.tick (h : s.Grown r first ts m) {o : Option (Except Error Outcome)}
    (account : s.Accounts r (m.ints (s.key r.batch)) (n, s.observed r es)) :
    s.Grown r first (ts ++ [⟨t, es, o⟩]) n := by
  obtain ⟨stored, below, rising, sampled⟩ := h
  have later : ∀ batch, (m.ints (s.key r.batch)).getD 0 < batch →
      n.ints (s.key r.batch) = some batch → (s.observed r es).stored = [batch] →
      (s.observed r es).sampled.Sublist [some batch] →
      s.Grown r first (ts ++ [⟨t, es, o⟩]) n := by
    intro batch grows ints noted taken
    have whole : s.storedBatches r (ts ++ [⟨t, es, o⟩]) = s.storedBatches r ts ++ [batch] :=
      (storedBatches_concat _).trans (congrArg _ noted)
    have above : ∀ b ∈ (first.ints (s.key r.batch)).getD 0 :: s.storedBatches r ts, b < batch :=
      fun b hb => UInt64.lt_of_le_of_lt (below b hb) grows
    refine ⟨?_, ?_, ?_, ?_⟩
    · simp [batchAfter, whole, ints]
    · rw [whole, ints, ← List.cons_append, List.forall_mem_append]
      exact ⟨fun b hb => UInt64.le_of_lt (above b hb), by simp⟩
    · rw [whole, ← List.cons_append, List.pairwise_append]
      exact ⟨rising, List.pairwise_singleton .., by simpa using above⟩
    · rw [whole, sampledBatches_concat, List.map_append]
      exact sampled.append taken
  cases account with
  | idle ints noted none =>
    have whole : s.storedBatches r (ts ++ [⟨t, es, o⟩]) = s.storedBatches r ts := by
      rw [storedBatches_concat, seen, noted, List.append_nil]
    have same : n.ints (s.key r.batch) = m.ints (s.key r.batch) := ints
    refine ⟨?_, ?_, ?_, ?_⟩
    · rw [same, stored, batchAfter, batchAfter, whole]
    · rwa [same, whole]
    · rwa [whole]
    · rwa [whole, sampledBatches_concat, seen, none, List.append_nil]
  | owing batch grows ints noted none =>
    exact later batch grows ints noted (by rw [none]; exact List.nil_sublist _)
  | taken batch grows ints noted taken =>
    exact later batch grows ints noted (by rw [taken])

theorem runs_grown (run : s.Runs shared first ts m) : s.Grown r first ts m := by
  induction run with
  | start => exact ⟨rfl, by simp [storedBatches], by simp [storedBatches], .slnil⟩
  | tick before t run ih => exact ih.tick (accounts_of_leads run).1

/-- A tick that does not change the stored batch number takes no sample, and one that comes to its
end takes one sample of the batch that it stored, unless a call of the store failed after that. -/
structure Tallies (s : Setup) (r : Role) (first : Memory) (before : List Tick) (t : Tick) :
    Prop where
  unchanged : s.batchAfter r first (before ++ [t]) = s.batchAfter r first before →
    (s.seen r t).sampled = []
  one : t.result.isSome = true → (s.seen r t).stored ≠ [] → (s.seen r t).sound = true →
    (s.seen r t).sampled.length = 1

theorem Grown.tallies (h : s.Grown r first ts m)
    (run : (s.tick t).run.Leads shared m es p n) :
    s.Tallies r first ts ⟨t, es, p.result?⟩ := by
  obtain ⟨account, settled⟩ := accounts_of_leads (r := r) run
  have after := (h.tick (t := t) (o := p.result?) account).stored
  have changed : ∀ batch, (m.ints (s.key r.batch)).getD 0 < batch →
      n.ints (s.key r.batch) = some batch →
      s.batchAfter r first (ts ++ [⟨t, es, p.result?⟩]) ≠ s.batchAfter r first ts := by
    intro batch grows ints same
    have unmoved : n.ints (s.key r.batch) = m.ints (s.key r.batch) :=
      after.trans (same.trans h.stored.symm)
    rw [← unmoved, ints] at grows
    exact UInt64.lt_irrefl _ grows
  cases account with
  | idle ints stored sampled => exact ⟨fun _ => sampled, fun _ some => absurd stored some⟩
  | owing batch grows ints stored sampled =>
    refine ⟨fun same => absurd same (changed batch grows ints), fun ended some sound => ?_⟩
    have failed := (settled ended).2 some sampled
    exact nomatch failed.symm.trans sound
  | taken batch grows ints stored sampled =>
    refine ⟨fun same => absurd same (changed batch grows ints), fun _ _ _ => ?_⟩
    exact congrArg List.length sampled

theorem runs_tallies (run : s.Runs shared first ts m) : AtEach (s.Tallies r first) ts := by
  induction run with
  | start => exact atEach_nil _
  | tick before t run ih => exact atEach_concat.2 ⟨ih, (runs_grown before).tallies run⟩

end Runs

/-- At most one sample per batch: the samples of a role are taken of batches that were stored, in
order and of none twice, and the numbers stored only rise. -/
theorem batches_sampled_once {first m : Memory} {ts : List Tick} (run : s.Runs shared first ts m)
    (r : Role) :
    (s.sampledBatches r ts).length ≤ (s.storedBatches r ts).length ∧
    (s.sampledBatches r ts).Sublist ((s.storedBatches r ts).map some) ∧
    (s.sampledBatches r ts).Nodup ∧
    ((first.ints (s.key r.batch)).getD 0 :: s.storedBatches r ts).Pairwise (· < ·) ∧
    m.ints (s.key r.batch) = s.batchAfter r first ts ∧
    ∀ before t after, ts = before ++ t :: after → s.Tallies r first before t := by
  obtain ⟨stored, -, rising, sampled⟩ := runs_grown (r := r) run
  have distinct : ((s.storedBatches r ts).map some).Nodup :=
    (rising.of_cons.imp fun less => UInt64.ne_of_lt less).map some fun a b ne same =>
      ne (Option.some.inj same)
  refine ⟨?_, sampled, sampled.nodup distinct, rising, stored, runs_tallies run⟩
  simpa using sampled.length_le

open Simulation

/-- The first batch cannot be stored at first. It is stored and sampled by the second tick, and the
second batch by the fourth. -/
def refusedBatch : List Turn :=
  [⟨.batch .commit, fun w =>
      { w with
        store := { w.store with refused := [plainSetup.key .committedBatch] }
        chain := { w.chain with committed := 1, lastBlocks := [(1, 5), (2, 9)] } }⟩,
    ⟨.batch .commit, fun w => w⟩, ⟨.batch .commit, fun w => w⟩,
    ⟨.batch .commit, fun w => { w with chain := { w.chain with committed := 2 } }⟩]

theorem batches_sampled_once_refusedBatch :
    (play plainSetup 60 refusedBatch quietWorld).1.map (plainSetup.seen .commit) =
      [⟨[], [], false⟩, ⟨[1], [some 1], true⟩, ⟨[], [], true⟩, ⟨[2], [some 2], true⟩] ∧
    (plainSetup.sampledBatches .commit (play plainSetup 60 refusedBatch quietWorld).1).Nodup := by
  have run := runs_play_shared plainSetup 60 refusedBatch quietWorld (by simp [refusedBatch])
  obtain ⟨-, -, once, -⟩ := batches_sampled_once run .commit
  exact ⟨by decide +kernel, once⟩

end Setup
end BridgeNotifier
