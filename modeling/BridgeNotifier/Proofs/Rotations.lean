import BridgeNotifier.Proofs.Endpoints
import Mathlib.Data.List.DropRight
set_option autoImplicit false

namespace BridgeNotifier

variable {α : Type}

def Attempt.MayPass : Attempt α → Prop
  | .value _ => False
  | .failure e => e.isTransient = true
  | .timedOut => True

structure Tried (α : Type) where
  position : Nat
  outcome : Attempt α

namespace Failover.Endpoints

/-- A move, and what was there before and after it. -/
structure Moment (α : Type) where
  before : Endpoints α
  move : Move α
  after : Endpoints α

inductive Recorded (answers : Nat → Attempt α → Prop) (f : Failover) :
    List (Moment α) → Endpoints α → Prop where
  | start : Recorded answers f [] ⟨f, []⟩
  | step {ms : List (Moment α)} {mv : Move α} {P Q : Endpoints α} (before : Recorded answers f ms P)
      (step : P.Step answers mv Q) : Recorded answers f (ms ++ [⟨P, mv, Q⟩]) Q

namespace Moment

def tried? (i : Nat) (m : Moment α) : Option (Tried α) :=
  match m.move with
  | .answer j outcome =>
    if j = i then
      match m.before.calls[i]? with
      | some (_, .trying _ position) => some ⟨position, outcome⟩
      | _ => none
    else none
  | _ => none

def begun? (i : Nat) (m : Moment α) : Option Nat :=
  match m.move with
  | .attempt j => if j = i then some m.before.failover.active else none
  | _ => none

def Turns (m : Moment α) : Prop :=
  m.after.failover.active ≠ m.before.failover.active

theorem tried?_of_ne {i : Nat} {m : Moment α} (h : m.move.caller? ≠ some i) :
    m.tried? i = none := by
  obtain ⟨P, mv, Q⟩ := m
  cases mv with
  | answer j outcome =>
    have ne : j ≠ i := fun same => h (congrArg some same)
    simp [tried?, ne]
  | _ => rfl

theorem begun?_of_ne {i : Nat} {m : Moment α} (h : m.move.caller? ≠ some i) :
    m.begun? i = none := by
  obtain ⟨P, mv, Q⟩ := m
  cases mv with
  | attempt j =>
    have ne : j ≠ i := fun same => h (congrArg some same)
    simp [begun?, ne]
  | _ => rfl

theorem begun?_of_attempt {i : Nat} {m : Moment α} (h : m.move = .attempt i) :
    m.begun? i = some m.before.failover.active := by
  simp [begun?, h]

theorem tried?_of_attempt {i : Nat} {m : Moment α} (h : m.move = .attempt i) :
    m.tried? i = none := by
  simp [tried?, h]

theorem begun?_of_tried? {i : Nat} {m : Moment α} {t : Tried α} (h : m.tried? i = some t) :
    m.begun? i = none := by
  obtain ⟨P, mv, Q⟩ := m
  cases mv with
  | attempt j => simp [tried?] at h
  | _ => rfl

end Moment

def tried (i : Nat) (ms : List (Moment α)) : List (Tried α) := ms.filterMap (Moment.tried? i)

def begun (i : Nat) (ms : List (Moment α)) : List Nat := ms.filterMap (Moment.begun? i)

theorem tried_append (i : Nat) (ms ms' : List (Moment α)) :
    tried i (ms ++ ms') = tried i ms ++ tried i ms' :=
  List.filterMap_append

theorem begun_append (i : Nat) (ms ms' : List (Moment α)) :
    begun i (ms ++ ms') = begun i ms ++ begun i ms' :=
  List.filterMap_append

theorem tried_cons (i : Nat) (m : Moment α) (ms : List (Moment α)) :
    tried i (m :: ms) = (m.tried? i).toList ++ tried i ms := by
  cases h : m.tried? i <;> simp [tried, h]

theorem begun_cons (i : Nat) (m : Moment α) (ms : List (Moment α)) :
    begun i (m :: ms) = (m.begun? i).toList ++ begun i ms := by
  cases h : m.begun? i <;> simp [begun, h]

@[simp] theorem tried_nil (i : Nat) : tried i ([] : List (Moment α)) = [] := rfl

@[simp] theorem begun_nil (i : Nat) : begun i ([] : List (Moment α)) = [] := rfl

/-- The call has tried so often, without success, and `current` is where it is trying now. -/
structure Told (i : Nat) (ms : List (Moment α)) (attempt : Nat) (current : List Nat) : Prop where
  count : (tried i ms).length = attempt
  begun : begun i ms = (tried i ms).map Tried.position ++ current
  mayPass : ∀ t ∈ tried i ms, t.outcome.MayPass

def Stands (i : Nat) (ms : List (Moment α)) : CallPhase α → Prop
  | .ready attempt | .resting attempt => Told i ms attempt []
  | .trying attempt position => Told i ms attempt [position]
  | .finished _ => True

section Told
variable {i attempt attempt' : Nat} {current current' : List Nat} {ms : List (Moment α)}
  {m : Moment α}

theorem Told.next (h : Told i ms attempt current)
    (count : attempt + (m.tried? i).toList.length = attempt')
    (begins : current ++ (m.begun? i).toList =
      (m.tried? i).toList.map Tried.position ++ current')
    (may : ∀ t ∈ m.tried? i, t.outcome.MayPass) : Told i (ms ++ [m]) attempt' current' := by
  refine ⟨?_, ?_, ?_⟩
  · simp [tried_append, tried_cons, h.count, count]
  · simp [tried_append, begun_append, tried_cons, begun_cons, h.begun, begins]
  · intro t ht
    simp only [tried_append, tried_cons, tried_nil, List.append_nil, List.mem_append,
      Option.mem_toList] at ht
    rcases ht with old | new
    · exact h.mayPass t old
    · exact may t new

theorem Told.other (h : Told i ms attempt current) (hm : m.move.caller? ≠ some i) :
    Told i (ms ++ [m]) attempt current := by
  apply h.next <;> simp [Moment.tried?_of_ne hm, Moment.begun?_of_ne hm]

theorem Stands.other {phase : CallPhase α} (h : Stands i ms phase)
    (hm : m.move.caller? ≠ some i) : Stands i (ms ++ [m]) phase := by
  cases phase with
  | ready a | resting a | trying a position => exact Told.other h hm
  | finished r => trivial

end Told

section Proceed
variable {f : Failover} {what : String} {attempt position : Nat} {outcome : Attempt α}

theorem stands_proceed {i : Nat} {ms : List (Moment α)}
    (h : outcome.MayPass → Told i ms (attempt + 1) []) :
    Stands i ms (f.proceed what attempt position outcome).1 := by
  have retried : ∀ e, outcome.MayPass →
      Stands i ms (@retry α f attempt position e).1 := by
    intro e may
    unfold retry
    split
    · dsimp only
      split
      · exact h may
      · trivial
    · exact h may
  cases outcome with
  | value v => trivial
  | failure e =>
    simp only [proceed]
    split
    · next transient => exact retried e transient
    · trivial
  | timedOut => exact retried _ trivial

theorem usedUp_of_proceed (h : (f.proceed what attempt position outcome).2.active ≠ f.active) :
    outcome.MayPass ∧ (attempt + 1) % f.perUrl = 0 ∧ f.active = position ∧
      (f.proceed what attempt position outcome).2.active = (f.active + 1) % f.urls.length := by
  have retried : ∀ e, (@retry α f attempt position e).2.active ≠ f.active →
      (attempt + 1) % f.perUrl = 0 ∧ f.active = position ∧
        (@retry α f attempt position e).2.active = (f.active + 1) % f.urls.length := by
    intro e he
    unfold retry at he ⊢
    by_cases used : (attempt + 1) % f.perUrl = 0
    · by_cases here : f.active = position
      · refine ⟨used, here, ?_⟩
        simp [used, rotate_active, here]
      · simp [used, rotate_active, here] at he
    · simp [used] at he
  cases outcome with
  | value v => exact absurd rfl h
  | failure e =>
    by_cases transient : e.isTransient = true
    · simp only [proceed, if_pos transient] at h ⊢
      exact ⟨transient, retried e h⟩
    · simp only [proceed, if_neg transient] at h
      exact absurd rfl h
  | timedOut => exact ⟨trivial, retried _ h⟩

end Proceed

/-- What holds at every moment of a run. -/
structure Recounts (f : Failover) (ms : List (Moment α)) (P : Endpoints α) : Prop where
  urls : P.failover.urls = f.urls
  policy : P.failover.policy = f.policy
  active : P.failover.active < f.urls.length
  calls : ∀ i c, P.calls[i]? = some c → Stands i ms c.2
  later : ∀ i, P.calls.length ≤ i → Told i ms 0 []

variable {f : Failover} {answers : Nat → Attempt α → Prop} {ms : List (Moment α)}
  {P Q : Endpoints α} {mv : Move α}

theorem Recounts.set {g : Failover} {i : Nat} {what : String} {phase next : CallPhase α}
    (h : Recounts f ms P) (hc : P.calls[i]? = some (what, phase)) (hmv : mv.caller? = some i)
    (hQ : Q = ⟨g, P.calls.set i (what, next)⟩) (urls : g.urls = P.failover.urls)
    (policy : g.policy = P.failover.policy) (active : g.active < f.urls.length)
    (stands : Stands i (ms ++ [⟨P, mv, Q⟩]) next) : Recounts f (ms ++ [⟨P, mv, Q⟩]) Q := by
  subst hQ
  refine ⟨urls.trans h.urls, policy.trans h.policy, active, ?_, ?_⟩
  · intro j c hj
    by_cases same : j = i
    · subst same
      obtain ⟨hlt, -⟩ := List.getElem?_eq_some_iff.1 hc
      rw [List.getElem?_set_self hlt, Option.some.injEq] at hj
      subst hj
      exact stands
    · rw [List.getElem?_set_ne (Ne.symm same)] at hj
      exact (h.calls j c hj).other (by simp [hmv, Ne.symm same])
  · intro j hj
    rw [List.length_set] at hj
    have other : i ≠ j := by
      rintro rfl
      rw [List.getElem?_eq_none hj] at hc
      cases hc
    exact (h.later j hj).other (by simp [hmv, other])

theorem proceed_urls (f : Failover) (what : String) (attempt position : Nat)
    (outcome : Attempt α) : (f.proceed what attempt position outcome).2.urls = f.urls ∧
      (f.proceed what attempt position outcome).2.policy = f.policy := by
  have retried : ∀ e, (@retry α f attempt position e).2.urls = f.urls ∧
      (@retry α f attempt position e).2.policy = f.policy := by
    intro e
    unfold retry
    split
    · exact ⟨rotate_urls f position, rotate_policy f position⟩
    · exact ⟨rfl, rfl⟩
  cases outcome with
  | value v => exact ⟨rfl, rfl⟩
  | failure e =>
    simp only [proceed]
    split
    · exact retried e
    · exact ⟨rfl, rfl⟩
  | timedOut => exact retried _

theorem proceed_active_lt {what : String} {attempt position : Nat} {outcome : Attempt α}
    (h : f.active < f.urls.length) :
    (f.proceed what attempt position outcome).2.active < f.urls.length := by
  by_cases same : (f.proceed what attempt position outcome).2.active = f.active
  · rw [same]
    exact h
  · rw [(usedUp_of_proceed same).2.2.2]
    exact Nat.mod_lt _ (by omega)

theorem Recounts.step (h : Recounts f ms P) (step : P.Step answers mv Q) :
    Recounts f (ms ++ [⟨P, mv, Q⟩]) Q := by
  have lt : P.failover.active < P.failover.urls.length := by
    rw [h.urls]
    exact h.active
  cases step with
  | call what =>
    refine ⟨h.urls, h.policy, h.active, ?_, ?_⟩
    · intro i c hc
      by_cases hi : i < P.calls.length
      · rw [List.getElem?_append_left hi] at hc
        exact (h.calls i c hc).other (by simp [Move.caller?])
      · obtain ⟨hlt, hget⟩ := List.getElem?_eq_some_iff.1 hc
        rw [List.length_append, List.length_singleton] at hlt
        have new : c = (what, .ready 0) := by
          rw [List.getElem_append_right (by omega), List.getElem_singleton] at hget
          exact hget.symm
        subst new
        exact (h.later i (by omega)).other (by simp [Move.caller?])
    · intro i hi
      rw [List.length_append] at hi
      exact (h.later i (by omega)).other (by simp [Move.caller?])
  | @attempt i a what hc =>
    have told : Told i ms a [] := h.calls i _ hc
    have here : P.failover.position = P.failover.active := Nat.mod_eq_of_lt lt
    refine h.set hc rfl rfl rfl rfl h.active (told.next ?_ ?_ ?_)
    · simp [Moment.tried?]
    · simp [Moment.tried?, Moment.begun?, here]
    · simp [Moment.tried?]
  | @answer i a position what outcome hc ok =>
    have told : Told i ms a [position] := h.calls i _ hc
    have same := proceed_urls P.failover what a position outcome
    have active : (P.failover.proceed what a position outcome).2.active < f.urls.length := by
      rw [← h.urls]
      exact proceed_active_lt lt
    refine h.set hc rfl rfl same.1 same.2 active (stands_proceed fun may => told.next ?_ ?_ ?_)
    · simp [Moment.tried?, hc]
    · simp [Moment.tried?, Moment.begun?, hc]
    · simp [Moment.tried?, hc, may]
  | @wake i a what hc =>
    have told : Told i ms a [] := h.calls i _ hc
    refine h.set hc rfl rfl rfl rfl h.active (told.next ?_ ?_ ?_)
    · simp [Moment.tried?]
    · simp [Moment.tried?, Moment.begun?]
    · simp [Moment.tried?]

theorem Recorded.recounts (run : Recorded answers f ms P) (ha : f.active < f.urls.length) :
    Recounts f ms P := by
  induction run with
  | start =>
    refine ⟨rfl, rfl, ha, ?_, ?_⟩
    · intro i c hc
      simp at hc
    · intro i _
      exact ⟨rfl, rfl, by simp [tried]⟩
  | step _ step ih => exact ih.step step

theorem Recorded.at {ms' : List (Moment α)} {m : Moment α}
    (run : Recorded answers f (ms ++ m :: ms') P) :
    Recorded answers f ms m.before ∧ m.before.Step answers m.move m.after := by
  generalize hall : ms ++ m :: ms' = all at run
  induction run generalizing ms' with
  | start => simp at hall
  | @step all mv R Q before step ih =>
    cases ms' using List.reverseRecOn with
    | nil =>
      obtain ⟨rfl, last⟩ := List.append_inj' hall rfl
      obtain rfl := List.singleton_inj.1 last
      exact ⟨before, step⟩
    | append_singleton init last =>
      have cut : (ms ++ m :: init) ++ [last] = all ++ [⟨R, mv, Q⟩] := by simpa using hall
      exact ih (List.append_inj' cut rfl).1

theorem Recorded.still {stretch : List (Moment α)} (run : Recorded answers f (ms ++ stretch) P)
    (still : ∀ m ∈ stretch, ¬ m.Turns) :
    ∀ m ∈ stretch, m.before.failover.active = P.failover.active := by
  generalize hall : ms ++ stretch = all at run
  induction run generalizing stretch with
  | start =>
    obtain ⟨-, rfl⟩ := List.append_eq_nil_iff.1 hall
    simp
  | @step all mv R Q before step ih =>
    cases stretch using List.reverseRecOn with
    | nil => simp
    | append_singleton init last =>
      rw [← List.append_assoc] at hall
      obtain ⟨rfl, same⟩ := List.append_inj' hall rfl
      obtain rfl := List.singleton_inj.1 same
      have kept : Q.failover.active = R.failover.active :=
        not_not.1 (still ⟨R, mv, Q⟩ (by simp))
      intro m hm
      rw [kept]
      rcases List.mem_append.1 hm with old | new
      · exact ih (fun m hm => still m (by simp [hm])) rfl m old
      · rw [List.mem_singleton.1 new]

theorem active_of_mem_begun {i u : Nat} (h : u ∈ begun i ms) :
    ∃ m ∈ ms, m.before.failover.active = u := by
  obtain ⟨m, hm, hu⟩ := List.mem_filterMap.1 h
  refine ⟨m, hm, ?_⟩
  unfold Moment.begun? at hu
  split at hu
  · split at hu
    · exact Option.some.inj hu
    · cases hu
  · cases hu

def lastTried (f : Failover) (i : Nat) (ms : List (Moment α)) : List (Tried α) :=
  (tried i ms).rtake f.perUrl

def lastBegun (f : Failover) (i : Nat) (ms : List (Moment α)) : List Nat :=
  (begun i ms).rtake f.perUrl

/-- A call has used up its attempts, the last of them at a position. -/
structure UsedUp (f : Failover) (i : Nat) (ms : List (Moment α)) (position : Nat) : Prop where
  length : (lastTried f i ms).length = f.perUrl
  mayPass : ∀ t ∈ lastTried f i ms, t.outcome.MayPass
  last : (lastTried f i ms).getLast?.map Tried.position = some position

/-- No other call has moved on since the call began the first of its last attempts. -/
def Alone (f : Failover) (i : Nat) (ms : List (Moment α)) : Prop :=
  ∃ before first during, ms = before ++ first :: during ∧ first.move = .attempt i ∧
    (begun i during).length + 1 = f.perUrl ∧
      ∀ m ∈ during, m.Turns → m.move.caller? = some i

theorem perUrl_eq {g : Failover} (h : g.policy = f.policy) : g.perUrl = f.perUrl := by
  simp [perUrl, h]

/-- Whoever moves on has made as many attempts as some endpoints get in a row, the last of them on
the endpoint that it leaves. -/
theorem Recounts.turning (h : Recounts f ms P) (step : P.Step answers mv Q)
    (turns : Q.failover.active ≠ P.failover.active) :
    ∃ i outcome n, mv = .answer i outcome ∧
      Moment.tried? i ⟨P, mv, Q⟩ = some ⟨P.failover.active, outcome⟩ ∧
      Told i (ms ++ [⟨P, mv, Q⟩]) n [] ∧ f.perUrl ∣ n ∧ 0 < n ∧
      Q.failover.active = (P.failover.active + 1) % f.urls.length := by
  cases step with
  | call what => exact absurd rfl turns
  | attempt hc => exact absurd rfl turns
  | wake hc => exact absurd rfl turns
  | @answer i a position what outcome hc ok =>
    obtain ⟨may, used, here, next⟩ := usedUp_of_proceed turns
    have told : Told i ms a [position] := h.calls i _ hc
    have tries : Moment.tried? i ⟨P, .answer i outcome,
        ⟨(P.failover.proceed what a position outcome).2,
          P.calls.set i (what, (P.failover.proceed what a position outcome).1)⟩⟩ =
        some ⟨position, outcome⟩ := by
      simp [Moment.tried?, hc]
    rw [perUrl_eq h.policy] at used
    rw [h.urls] at next
    refine ⟨i, outcome, a + 1, rfl, ?_, told.next ?_ ?_ ?_, Nat.dvd_of_mod_eq_zero used,
      Nat.succ_pos a, next⟩
    · rw [tries, here]
    · rw [tries]
      rfl
    · rw [tries]
      simp [Moment.begun?]
    · rw [tries]
      simpa using may

theorem length_rtake {β : Type} {l : List β} {k : Nat} (h : k ≤ l.length) :
    (l.rtake k).length = k := by
  rw [List.rtake, List.length_drop]
  omega

theorem lastBegun_eq {i n : Nat} (told : Told i ms n []) :
    lastBegun f i ms = (lastTried f i ms).map Tried.position := by
  have begins : begun i ms = (tried i ms).map Tried.position := by
    rw [told.begun, List.append_nil]
  rw [lastBegun, lastTried, begins, List.rtake, List.rtake, List.length_map, List.map_drop]

theorem not_turns_of_attempt {m : Moment α} {i : Nat} (step : m.before.Step answers m.move m.after)
    (h : m.move = .attempt i) : ¬ m.Turns := by
  obtain ⟨P, mv, Q⟩ := m
  change mv = .attempt i at h
  subst h
  change P.Step answers (.attempt i) Q at step
  cases step with
  | attempt hc => exact fun turns => turns rfl

theorem still_of_alone {i n : Nat} {before during : List (Moment α)} {first last : Moment α}
    (ha : f.active < f.urls.length) (run : Recorded answers f (before ++ first :: during) P)
    (told : Told i ((before ++ first :: during) ++ [last]) n []) (all : f.perUrl ∣ n)
    (new : (last.tried? i).isSome) (begins : first.move = .attempt i)
    (count : (begun i during).length + 1 = f.perUrl)
    (others : ∀ m ∈ during, m.Turns → m.move.caller? = some i) : ∀ m ∈ during, ¬ m.Turns := by
  intro m hm turns
  obtain ⟨early, late, rfl⟩ := List.append_of_mem hm
  have cut : before ++ first :: (early ++ m :: late) = (before ++ first :: early) ++ m :: late := by
    simp
  rw [cut] at run
  obtain ⟨part, step⟩ := run.at
  obtain ⟨j, outcome, n', hmove, hlast, told', all', -, -⟩ :=
    (part.recounts ha).turning step turns
  have own : some j = some i := by
    rw [← others m hm turns, hmove]
    rfl
  obtain rfl := Option.some.inj own
  obtain ⟨t, ht⟩ := Option.isSome_iff_exists.1 new
  have ends := Moment.begun?_of_tried? ht
  have opened := Moment.begun?_of_attempt begins
  have silent := Moment.tried?_of_attempt begins
  have quiet : m.begun? j = none := Moment.begun?_of_tried? hlast
  -- the attempts that are over and those that began, up to the moment and up to the end
  have ended := told.count
  have ended' := told'.count
  have began := congrArg List.length told.begun
  have began' := congrArg List.length told'.begun
  simp only [tried_append, begun_append, tried_cons, begun_cons, tried_nil, begun_nil, ht, ends,
    opened, silent, quiet, hlast, Option.toList_none, Option.toList_some, List.length_append,
    List.length_map, List.length_cons, List.length_nil] at ended ended' began began' count
  -- both are numbers after which the call moves on, and they are too close to each other
  have later : 0 < n - n' := by omega
  have near : n - n' < f.perUrl := by omega
  exact absurd (Nat.le_of_dvd later (Nat.dvd_sub all all')) (Nat.not_le.2 near)

/-- Whatever calls run beside each other, the active endpoint changes only when a call has used up
its attempts, the last of them on the endpoint that is left. All of them were made there if and only
if it was the active one whenever one of them began, and it was if no other call has moved on since
the first of them. -/
theorem turns_after_failures {urls : List String} {policy : FailoverPolicy}
    (made : ofUrls urls policy = .ok f) (run : Recorded answers f ms P)
    (step : P.Step answers mv Q) (turns : Q.failover.active ≠ P.failover.active) :
    ∃ i outcome, mv = .answer i outcome ∧
      Q.failover.active = (P.failover.active + 1) % f.urls.length ∧
      UsedUp f i (ms ++ [⟨P, mv, Q⟩]) P.failover.active ∧
      ((∀ t ∈ lastTried f i (ms ++ [⟨P, mv, Q⟩]), t.position = P.failover.active) ↔
        ∀ u ∈ lastBegun f i ms, u = P.failover.active) ∧
      (Alone f i ms →
        ∀ t ∈ lastTried f i (ms ++ [⟨P, mv, Q⟩]), t.position = P.failover.active) := by
  have ha := active_lt_of_ofUrls made
  obtain ⟨i, outcome, n, rfl, last, told, all, pos, next⟩ := (run.recounts ha).turning step turns
  have length : f.perUrl ≤ (tried i (ms ++ [⟨P, .answer i outcome, Q⟩])).length := by
    rw [told.count]
    exact Nat.le_of_dvd pos all
  have same : lastBegun f i ms =
      (lastTried f i (ms ++ [⟨P, .answer i outcome, Q⟩])).map Tried.position := by
    rw [← lastBegun_eq told]
    simp [lastBegun, begun_append, begun_cons, Moment.begun?]
  have iff : (∀ t ∈ lastTried f i (ms ++ [⟨P, .answer i outcome, Q⟩]),
      t.position = P.failover.active) ↔ ∀ u ∈ lastBegun f i ms, u = P.failover.active := by
    simp [same]
  refine ⟨i, outcome, rfl, next, ⟨length_rtake length, ?_, ?_⟩, iff, ?_⟩
  · intro t ht
    exact told.mayPass t (List.mem_of_mem_drop ht)
  · have tries : tried i (ms ++ [⟨P, .answer i outcome, Q⟩]) =
        tried i ms ++ [⟨P.failover.active, outcome⟩] := by
      simp [tried_append, tried_cons, last]
    obtain ⟨k, hk⟩ := Nat.exists_eq_succ_of_ne_zero (Nat.pos_iff_ne_zero.1 f.perUrl_pos)
    rw [lastTried, hk, tries, List.rtake_concat_succ]
    simp
  · rintro ⟨before, first, during, rfl, begins, count, others⟩
    have opened := Moment.begun?_of_attempt begins
    have still := still_of_alone ha run told all (by simp [last]) begins count others
    have opening : ¬ first.Turns := not_turns_of_attempt run.at.2 begins
    refine iff.2 fun u hu => ?_
    have block : lastBegun f i (before ++ first :: during) = begun i (first :: during) := by
      have size : (begun i (first :: during)).length = f.perUrl := by
        simp [begun_cons, opened, ← count, Nat.add_comm]
      rw [lastBegun, begun_append, List.rtake, List.length_append, size, Nat.add_sub_cancel]
      exact List.drop_left
    rw [block] at hu
    obtain ⟨m, hm, rfl⟩ := active_of_mem_begun hu
    refine run.still (fun m hm => ?_) m hm
    rcases List.mem_cons.1 hm with rfl | hm
    · exact opening
    · exact still m hm

def silent (_ : Nat) (outcome : Attempt String) : Prop := outcome = .timedOut

def pair : Failover := ⟨["http://a", "http://b"], 0, ⟨2, .ofMillis 200, .ofSecs 10⟩⟩

theorem ofUrls_pair :
    ofUrls ["http://a", "http://b"] ⟨2, .ofMillis 200, .ofSecs 10⟩ = .ok pair := rfl

def aboutToMove : Endpoints String :=
  ⟨pair, [("eth_blockNumber", .resting 1), ("eth_getBlockByNumber", .trying 1 0)]⟩

theorem recorded_aboutToMove : ∃ ms, Recorded silent pair ms aboutToMove ∧ Alone pair 1 ms ∧
    tried 0 ms = [⟨0, .timedOut⟩] := by
  have idle : Recorded silent pair [] ⟨pair, []⟩ := .start
  have first := idle.step (.call "eth_blockNumber") |>.step (.call "eth_getBlockByNumber")
    |>.step (.attempt (i := 0) rfl)
  have failed := first.step (.attempt (i := 1) rfl) |>.step (.answer (i := 0) rfl rfl)
    |>.step (.answer (i := 1) rfl rfl)
  have again := failed.step (.wake (i := 1) rfl) |>.step (.attempt (i := 1) rfl)
  refine ⟨_, again, ?_, rfl⟩
  simp only [List.nil_append, List.cons_append]
  refine ⟨_ :: _ :: [_], _, _, rfl, rfl, rfl, ?_⟩
  simp [Moment.Turns, pair, proceed, retry, perUrl]

theorem second_call_moves : ∃ ms, Recorded silent pair ms aboutToMove ∧ Alone pair 1 ms ∧
    ∃ Q, aboutToMove.Step silent (.answer 1 .timedOut) Q ∧ Q.failover.active = 1 ∧
      UsedUp pair 1 (ms ++ [⟨aboutToMove, .answer 1 .timedOut, Q⟩]) 0 ∧
      ∀ t ∈ lastTried pair 1 (ms ++ [⟨aboutToMove, .answer 1 .timedOut, Q⟩]), t.position = 0 := by
  obtain ⟨ms, run, alone, -⟩ := recorded_aboutToMove
  have step : aboutToMove.Step silent (.answer 1 .timedOut) _ := .answer rfl rfl
  obtain ⟨i, outcome, same, next, used, -, here⟩ :=
    turns_after_failures ofUrls_pair run step (by decide)
  cases same
  exact ⟨ms, run, alone, _, step, next, used, here alone⟩

def moved : Endpoints String :=
  ⟨{ pair with active := 1 },
    [("eth_blockNumber", .trying 1 1), ("eth_getBlockByNumber", .ready 2)]⟩

theorem recorded_moved : ∃ ms, Recorded silent pair ms moved ∧ tried 0 ms = [⟨0, .timedOut⟩] := by
  obtain ⟨ms, run, -, once⟩ := recorded_aboutToMove
  refine ⟨_, run.step (.answer (i := 1) rfl rfl) |>.step (.wake (i := 0) rfl)
    |>.step (.attempt (i := 0) rfl), ?_⟩
  simp only [tried_append, once]
  rfl

/-- The first call fails once on each endpoint, and leaves the second one after the one attempt. -/
theorem not_all_where_left : ¬ ∀ {urls : List String} {policy : FailoverPolicy} {f : Failover}
    {answers : Nat → Attempt String → Prop} {ms : List (Moment String)} {P Q : Endpoints String}
    {mv : Move String}, ofUrls urls policy = .ok f → 2 ≤ f.urls.length → Recorded answers f ms P →
    P.Step answers mv Q → Q.failover.active ≠ P.failover.active →
    ∃ i outcome, mv = .answer i outcome ∧
      (lastTried f i (ms ++ [⟨P, mv, Q⟩])).length = f.perUrl ∧
      ∀ t ∈ lastTried f i (ms ++ [⟨P, mv, Q⟩]),
        t.position = P.failover.active ∧ t.outcome.MayPass := by
  intro h
  obtain ⟨ms, run, once⟩ := recorded_moved
  have step : moved.Step silent (.answer 0 .timedOut) _ := .answer rfl rfl
  obtain ⟨i, outcome, same, -, all⟩ := h ofUrls_pair (by decide) run step (by decide)
  cases same
  have elsewhere := (all ⟨0, .timedOut⟩ (by
    rw [lastTried, tried_append, once]
    exact List.mem_cons_self)).1
  cases elsewhere

end Failover.Endpoints
end BridgeNotifier
