import BridgeNotifier.Proofs.Rotations
set_option autoImplicit false

/-!
# Calls with no other beside them

A call that nobody disturbs takes the endpoints in turn from the active one on, each as often as an
endpoint is tried in a row, up to the first attempt that does not fail in a way that may pass.
-/
namespace BridgeNotifier.Failover

variable {α : Type} (f : Failover) (what : String)

def place (attempt : Nat) : Nat :=
  (f.active + attempt / f.perUrl) % f.urls.length

def after (attempts : Nat) : Failover :=
  { f with active := f.place attempts }

def resultOf : Attempt α → Except Error α
  | .value a => .ok a
  | .failure e => .error e
  | .timedOut => .error (f.timeoutError what)

/-- How a call ends that nobody disturbs, when `script` tells how each attempt goes: the number of
its attempts, its result and the endpoints it leaves. -/
inductive EndsSo (script : Nat → Attempt α) : Nat → Except Error α → Failover → Prop where
  | stopped {attempt : Nat} (lt : attempt < f.perUrl * f.urls.length)
      (before : ∀ i < attempt, (script i).MayPass) (last : ¬ (script attempt).MayPass) :
      EndsSo script (attempt + 1) (f.resultOf what (script attempt))
        { f with active := (f.active + attempt / f.perUrl) % f.urls.length }
  | usedUp (all : ∀ i < f.perUrl * f.urls.length, (script i).MayPass) :
      EndsSo script (f.perUrl * f.urls.length)
        (f.resultOf what (script (f.perUrl * f.urls.length - 1))) f

variable {f what}

section Places
variable (ha : f.active < f.urls.length) {attempt : Nat}
include ha

theorem after_zero : f.after 0 = f := by
  rw [after, place, Nat.zero_div, Nat.add_zero, Nat.mod_eq_of_lt ha]

theorem after_total : f.after f.total = f := by
  rw [after, place, total, Nat.mul_div_cancel_left _ f.perUrl_pos, Nat.add_mod_right,
    Nat.mod_eq_of_lt ha]

theorem place_lt (attempt : Nat) : f.place attempt < f.urls.length :=
  Nat.mod_lt _ (by omega)

theorem position_after (attempt : Nat) : (f.after attempt).position = f.place attempt :=
  Nat.mod_eq_of_lt (place_lt ha attempt)

omit ha in
theorem rotate_after (used : (attempt + 1) % f.perUrl = 0) :
    (f.after attempt).rotate (f.place attempt) = f.after (attempt + 1) := by
  have next : (attempt + 1) / f.perUrl = attempt / f.perUrl + 1 :=
    Nat.succ_div_of_dvd (Nat.dvd_of_mod_eq_zero used)
  have wrapped : (f.place attempt + 1) % f.urls.length = f.place (attempt + 1) := by
    rw [place, place, next, Nat.mod_add_mod, Nat.add_assoc]
  have here : (f.after attempt).active = f.place attempt := rfl
  rw [rotate, if_pos here, after, after, ← wrapped]

omit ha in
theorem after_same (more : (attempt + 1) % f.perUrl ≠ 0) :
    f.after (attempt + 1) = f.after attempt := by
  have same : (attempt + 1) / f.perUrl = attempt / f.perUrl :=
    Nat.succ_div_of_not_dvd fun h => more (Nat.mod_eq_zero_of_dvd h)
  rw [after, after, place, place, same]

end Places

section Attempts
variable {attempt : Nat} {outcome : Attempt α}

theorem proceed_ends (g : Failover) (position : Nat) (h : ¬ outcome.MayPass) :
    g.proceed what attempt position outcome = (.finished (g.resultOf what outcome), g) := by
  cases outcome with
  | value a => rfl
  | failure e => exact if_neg h
  | timedOut => exact absurd trivial h

theorem resultOf_after (n : Nat) (outcome : Attempt α) :
    (f.after n).resultOf what outcome = f.resultOf what outcome := by
  cases outcome <;> rfl

theorem retry_after (lt : attempt < f.total) (e : Error) :
    (f.after attempt).retry attempt (f.place attempt) e =
      (if attempt + 1 < f.total then
          if (attempt + 1) % f.perUrl = 0 then .ready (attempt + 1) else .resting (attempt + 1)
        else (.finished (.error e) : CallPhase α), f.after (attempt + 1)) := by
  have perUrl : (f.after attempt).perUrl = f.perUrl := rfl
  have total : (f.after attempt).total = f.total := rfl
  rw [retry, perUrl, total]
  by_cases used : (attempt + 1) % f.perUrl = 0
  · rw [if_pos used, if_pos used, rotate_after used]
  · -- the last attempt is the last of those in a row
    have more : attempt + 1 < f.total := by
      refine Nat.lt_of_le_of_ne lt fun last => used ?_
      rw [last, Failover.total, Nat.mul_mod_right]
    rw [if_neg used, if_neg used, if_pos more, after_same used]

theorem proceed_mayPass (what : String) (h : outcome.MayPass) (n attempt position : Nat) :
    ∃ e, f.resultOf what outcome = .error e ∧
      (f.after n).proceed what attempt position outcome = (f.after n).retry attempt position e := by
  cases outcome with
  | value a => exact h.elim
  | failure e => exact ⟨e, rfl, if_pos h⟩
  | timedOut => exact ⟨_, rfl, rfl⟩

theorem proceed_after (what : String) {script : Nat → Attempt α} (ha : f.active < f.urls.length)
    (lt : attempt < f.total) (before : ∀ i < attempt, (script i).MayPass) :
    (∃ phase, (phase = .ready (attempt + 1) ∨ phase = .resting (attempt + 1)) ∧
      (f.after attempt).proceed what attempt (f.place attempt) (script attempt) =
        (phase, f.after (attempt + 1)) ∧
      attempt + 1 < f.total ∧ ∀ i < attempt + 1, (script i).MayPass) ∨
    ∃ r g, f.EndsSo what script (attempt + 1) r g ∧
      (f.after attempt).proceed what attempt (f.place attempt) (script attempt) =
        (.finished r, g) := by
  by_cases may : (script attempt).MayPass
  · have upTo : ∀ i < attempt + 1, (script i).MayPass := by
      intro i hi
      obtain hi | rfl := Nat.lt_succ_iff_lt_or_eq.1 hi
      · exact before i hi
      · exact may
    obtain ⟨e, result, retried⟩ := proceed_mayPass (f := f) what may attempt attempt
      (f.place attempt)
    rw [retried, retry_after lt]
    by_cases more : attempt + 1 < f.total
    · rw [if_pos more]
      split
      · exact .inl ⟨_, .inl rfl, rfl, more, upTo⟩
      · exact .inl ⟨_, .inr rfl, rfl, more, upTo⟩
    · have last : attempt + 1 = f.total := by omega
      have all : ∀ i < f.total, (script i).MayPass := last ▸ upTo
      have ends : f.EndsSo what script f.total _ f := .usedUp all
      rw [← total, ← last, Nat.add_sub_cancel, result] at ends
      rw [if_neg more, last, after_total ha, ← last]
      exact .inr ⟨_, _, ends, rfl⟩
  · rw [proceed_ends _ _ may, resultOf_after]
    exact .inr ⟨_, _, .stopped lt before may, rfl⟩

end Attempts

def scripted (f : Failover) (outcome : Nat → String → Attempt α) (attempt : Nat) : Attempt α :=
  outcome attempt (f.urlAt (f.place attempt))

theorem attemptsFrom_ends (what : String) (outcome : Nat → String → Attempt α)
    (ha : f.active < f.urls.length)
    {attempt left : Nat} (count : attempt + left = f.total) (some : 0 < left)
    (before : ∀ i < attempt, (f.scripted outcome i).MayPass) :
    ∃ attempts r g, f.EndsSo what (f.scripted outcome) attempts r g ∧
      attemptsFrom what outcome left attempt (f.after attempt) = (r, g) := by
  induction left generalizing attempt with
  | zero => exact absurd some (Nat.lt_irrefl 0)
  | succ left ih =>
    have asked : outcome attempt (f.after attempt).activeUrl = f.scripted outcome attempt := by
      rw [activeUrl, position_after ha]
      rfl
    rw [attemptsFrom, position_after ha, asked]
    obtain ⟨phase, going, proceeded, more, upTo⟩ | ⟨r, g, ends, proceeded⟩ :=
      proceed_after what ha (by omega) before
    · obtain ⟨attempts, r, g, ends, run⟩ := ih (by omega) (by omega) upTo
      refine ⟨attempts, r, g, ends, ?_⟩
      rw [proceeded]
      obtain rfl | rfl := going
      · exact run
      · exact run
    · rw [proceeded]
      exact ⟨_, r, g, ends, rfl⟩

theorem EndsSo.attempts_gt {script : Nat → Attempt α} {attempts n : Nat} {r : Except Error α}
    {g : Failover} (h : f.EndsSo what script attempts r g) (lt : n < f.total)
    (before : ∀ i < n, (script i).MayPass) : n < attempts := by
  cases h with
  | stopped _ _ last =>
    refine Nat.lt_succ_of_le (Nat.le_of_not_lt fun earlier => last (before _ earlier))
  | usedUp => exact lt

theorem EndsSo.unique {script : Nat → Attempt α} {m n : Nat} {r r' : Except Error α}
    {g g' : Failover} (h : f.EndsSo what script m r g) (h' : f.EndsSo what script n r' g') :
    m = n ∧ r = r' ∧ g = g' := by
  cases h with
  | @stopped a lt before last =>
    cases h' with
    | @stopped b lt' before' last' =>
      obtain hlt | rfl | hgt := Nat.lt_trichotomy a b
      · exact absurd (before' a hlt) last
      · exact ⟨rfl, rfl, rfl⟩
      · exact absurd (before b hgt) last'
    | usedUp all => exact absurd (all a lt) last
  | usedUp all =>
    cases h' with
    | stopped lt' _ last' => exact absurd (all _ lt') last'
    | usedUp => exact ⟨rfl, rfl, rfl⟩

namespace Endpoints

def Scripted (f : Failover) (outcome : Nat → String → Attempt α) (ms : List (Moment α)) : Prop :=
  ∀ (i : Nat) (t : Tried α), (tried 0 ms)[i]? = some t → t.outcome = outcome i (f.urlAt t.position)

/-- So many attempts are over, and so many more have begun. -/
structure Course (f : Failover) (script : Nat → Attempt α) (ms : List (Moment α))
    (ended current : Nat) : Prop where
  tried : tried 0 ms = (List.range ended).map fun i => ⟨f.place i, script i⟩
  begun : begun 0 ms = (List.range (ended + current)).map f.place

def Goes (f : Failover) (what : String) (script : Nat → Attempt α) (ms : List (Moment α))
    (g : Failover) : CallPhase α → Prop
  | .ready a | .resting a =>
    g = f.after a ∧ a < f.total ∧ (∀ i < a, (script i).MayPass) ∧ Course f script ms a 0
  | .trying a position => g = f.after a ∧ position = f.place a ∧ a < f.total ∧
      (∀ i < a, (script i).MayPass) ∧ Course f script ms a 1
  | .finished r => ∃ attempts, f.EndsSo what script attempts r g ∧ Course f script ms attempts 0

variable {script : Nat → Attempt α} {ms : List (Moment α)} {m : Moment α} {g : Failover}
variable {a position : Nat} {outcome : Attempt α}

theorem Course.next {ended current ended' current' : Nat} (h : Course f script ms ended current)
    (tries : (List.range ended).map (fun i => (⟨f.place i, script i⟩ : Tried α)) ++
      (m.tried? 0).toList = (List.range ended').map fun i => ⟨f.place i, script i⟩)
    (begins : (List.range (ended + current)).map f.place ++ (m.begun? 0).toList =
      (List.range (ended' + current')).map f.place) :
    Course f script (ms ++ [m]) ended' current' := by
  refine ⟨?_, ?_⟩
  · rw [tried_append, tried_cons, tried_nil, List.append_nil, h.tried, tries]
  · rw [begun_append, begun_cons, begun_nil, List.append_nil, h.begun, begins]

theorem goes_attempt (ha : f.active < f.urls.length) (h : Goes f what script ms g (.ready a))
    (move : m.move = .attempt 0) (here : m.before.failover = g) :
    Goes f what script (ms ++ [m]) g (g.start a) := by
  obtain ⟨rfl, lt, before, course⟩ := h
  refine ⟨rfl, position_after ha a, lt, before, course.next ?_ ?_⟩
  · rw [Moment.tried?_of_attempt move, Option.toList_none, List.append_nil]
  · rw [Moment.begun?_of_attempt move, here, List.range_succ, List.map_append]
    rfl

theorem goes_wake (h : Goes f what script ms g (.resting a)) (move : m.move = .wake 0) :
    Goes f what script (ms ++ [m]) g (.ready a) := by
  obtain ⟨rfl, lt, before, course⟩ := h
  refine ⟨rfl, lt, before, course.next ?_ ?_⟩
  · rw [Moment.tried?, move]
    exact List.append_nil _
  · rw [Moment.begun?, move]
    exact List.append_nil _

theorem goes_answer (ha : f.active < f.urls.length)
    (h : Goes f what script ms g (.trying a position))
    (tries : m.tried? 0 = some ⟨position, script a⟩) :
    Goes f what script (ms ++ [m]) (g.proceed what a position (script a)).2
      (g.proceed what a position (script a)).1 := by
  obtain ⟨rfl, rfl, lt, before, course⟩ := h
  have next : Course f script (ms ++ [m]) (a + 1) 0 := by
    refine course.next ?_ ?_
    · rw [tries, List.range_succ, List.map_append]
      rfl
    · rw [Moment.begun?_of_tried? tries]
      exact List.append_nil _
  obtain ⟨phase, going, proceeded, more, upTo⟩ | ⟨r, g, ends, proceeded⟩ :=
    proceed_after what ha lt before
  · rw [proceeded]
    obtain rfl | rfl := going
    · exact ⟨rfl, more, upTo, next⟩
    · exact ⟨rfl, more, upTo, next⟩
  · rw [proceeded]
    exact ⟨a + 1, ends, next⟩

/-- No call has begun yet, or one has, and nobody disturbs it. -/
def Sole (f : Failover) (what : String) (script : Nat → Attempt α) (ms : List (Moment α))
    (P : Endpoints α) : Prop :=
  match P.calls with
  | [] => P.failover = f ∧ Course f script ms 0 0
  | [(w, phase)] => w = what → Goes f what script ms P.failover phase
  | _ => True

theorem Scripted.of_append {outcome : Nat → String → Attempt α} {ms' : List (Moment α)}
    (h : Scripted f outcome (ms ++ ms')) : Scripted f outcome ms := by
  intro i t ht
  refine h i t ?_
  obtain ⟨hlt, -⟩ := List.getElem?_eq_some_iff.1 ht
  rw [tried_append, List.getElem?_append_left hlt, ht]

theorem course_call (w : String) (P Q : Endpoints α) (h : Course f script ms 0 0) :
    Course f script (ms ++ [⟨P, .call w, Q⟩]) 0 0 :=
  h.next rfl rfl

theorem total_pos (ha : f.active < f.urls.length) : 0 < f.total :=
  Nat.mul_pos f.perUrl_pos (by omega)

theorem Scripted.outcome_eq {outcome : Nat → String → Attempt α} {t : Tried α}
    (follows : Scripted f outcome (ms ++ [m])) (course : Course f (f.scripted outcome) ms a 1)
    (tries : m.tried? 0 = some t) (here : t.position = f.place a) :
    t.outcome = f.scripted outcome a := by
  have last : (tried 0 (ms ++ [m]))[a]? = some t := by
    rw [tried_append, tried_cons, tries, course.tried]
    simp
  rw [follows a t last, here]
  rfl

theorem sole_step {outcome : Nat → String → Attempt α} {P Q : Endpoints α} {mv : Move α}
    {answers : Nat → Attempt α → Prop} (ha : f.active < f.urls.length)
    (h : Sole f what (f.scripted outcome) ms P) (step : P.Step answers mv Q)
    (follows : Scripted f outcome (ms ++ [⟨P, mv, Q⟩])) :
    Sole f what (f.scripted outcome) (ms ++ [⟨P, mv, Q⟩]) Q := by
  obtain ⟨g, calls⟩ := P
  rcases calls with _ | ⟨⟨w, phase⟩, _ | ⟨second, more⟩⟩
  · obtain ⟨rfl, course⟩ : g = f ∧ _ := h
    cases step with
    | call w =>
      intro _
      exact ⟨(after_zero ha).symm, total_pos ha, nofun, course_call w _ _ course⟩
    | attempt h => cases h
    | answer h => cases h
    | wake h => cases h
  · cases step with
    | call => trivial
    | @attempt i a w' hc =>
      cases i with
      | succ i => cases hc
      | zero =>
        cases hc
        exact fun same => goes_attempt ha (h same) rfl rfl
    | @answer i a position w' o hc ok =>
      cases i with
      | succ i => cases hc
      | zero =>
        cases hc
        intro same
        subst same
        have goes : Goes f _ (f.scripted outcome) ms g (.trying a position) := h rfl
        obtain ⟨-, here, -, -, course⟩ := goes
        have told := follows.outcome_eq course (t := ⟨position, o⟩) rfl here
        dsimp only at told
        subst told
        exact goes_answer ha (h rfl) rfl
    | @wake i a w' hc =>
      cases i with
      | succ i => cases hc
      | zero =>
        cases hc
        exact fun same => goes_wake (h same) rfl
  · cases step with
    | call => trivial
    | @attempt i | @answer i | @wake i => rcases i with _ | _ | i <;> trivial

variable {answers : Nat → Attempt α → Prop}

theorem sole_of_recorded {outcome : Nat → String → Attempt α} {P : Endpoints α}
    (ha : f.active < f.urls.length) (run : Recorded answers f ms P)
    (follows : Scripted f outcome ms) : Sole f what (f.scripted outcome) ms P := by
  induction run with
  | start => exact ⟨rfl, rfl, rfl⟩
  | step _ step ih => exact sole_step ha (ih follows.of_append) step follows

abbrev anyhow : Nat → Attempt α → Prop := fun _ _ => True

theorem exists_answered {outcome : Nat → String → Attempt α} (ha : f.active < f.urls.length)
    (run : Recorded anyhow f ms ⟨g, [(what, .ready a)]⟩)
    (goes : Goes f what (f.scripted outcome) ms g (.ready a)) :
    let told := g.proceed what a g.position (f.scripted outcome a)
    ∃ ms', Recorded anyhow f ms' ⟨told.2, [(what, told.1)]⟩ ∧
      Goes f what (f.scripted outcome) ms' told.2 told.1 := by
  intro told
  let trying : Endpoints α := ⟨g, [(what, g.start a)]⟩
  have began : Recorded anyhow f (ms ++ [⟨_, .attempt 0, trying⟩]) trying :=
    run.step (.attempt (i := 0) rfl)
  have answered : Recorded anyhow f _ ⟨told.2, [(what, told.1)]⟩ :=
    began.step (.answer (i := 0) rfl trivial)
  exact ⟨_, answered, goes_answer ha (goes_attempt ha goes rfl rfl) rfl⟩

theorem exists_finished {outcome : Nat → String → Attempt α} (ha : f.active < f.urls.length)
    {left : Nat} (count : a + left = f.total) (run : Recorded anyhow f ms ⟨g, [(what, .ready a)]⟩)
    (goes : Goes f what (f.scripted outcome) ms g (.ready a)) :
    ∃ ms' r g', Recorded anyhow f ms' ⟨g', [(what, .finished r)]⟩ ∧
      Goes f what (f.scripted outcome) ms' g' (.finished r) := by
  induction left generalizing a ms g with
  | zero =>
    obtain ⟨-, lt, -, -⟩ := goes
    omega
  | succ left ih =>
    obtain ⟨ms', answered, goes'⟩ := exists_answered ha run goes
    obtain ⟨rfl, lt, before, -⟩ := goes
    rw [position_after ha] at answered goes'
    obtain ⟨phase, going, proceeded, -⟩ | ⟨r, g', ends, proceeded⟩ :=
      proceed_after what ha lt before
    · rw [proceeded] at answered goes'
      obtain rfl | rfl := going
      · exact ih (by omega) answered goes'
      · have woken : Recorded anyhow f _ ⟨f.after (a + 1), [(what, .ready (a + 1))]⟩ :=
          answered.step (.wake (i := 0) rfl)
        exact ih (by omega) woken (goes_wake goes' rfl)
    · rw [proceeded] at answered goes'
      exact ⟨ms', r, g', answered, goes'⟩

theorem scripted_of_course {outcome : Nat → String → Attempt α} {ended current : Nat}
    (course : Course f (f.scripted outcome) ms ended current) : Scripted f outcome ms := by
  intro i t ht
  rw [course.tried, List.getElem?_map] at ht
  obtain ⟨j, hj, rfl⟩ := Option.map_eq_some_iff.1 ht
  obtain ⟨-, rfl⟩ := List.getElem?_eq_some_iff.1 hj
  rw [List.getElem_range]
  rfl

/-- A call with no other beside it takes the endpoints in turn, whatever its attempts come to:
attempt `i` goes `i / perUrl` endpoints on from the active one. It ends with the first attempt that
does not fail in a way that may pass, and leaves its endpoint active; or else it uses up all of its
attempts, and the first endpoint is active again. -/
theorem sole_call_in_turn (f : Failover) (ha : f.active < f.urls.length) (what : String)
    (outcome : Nat → String → Attempt α) : ∃ attempts r g,
      f.EndsSo what (f.scripted outcome) attempts r g ∧
      f.callAlone what outcome = (r, g) ∧
      (∃ ms, Recorded anyhow f ms ⟨g, [(what, .finished r)]⟩ ∧ Scripted f outcome ms) ∧
      ∀ ms g' phase, Recorded anyhow f ms ⟨g', [(what, phase)]⟩ → Scripted f outcome ms →
        begun 0 ms = (List.range (begun 0 ms).length).map
            (fun i => (f.active + i / f.perUrl) % f.urls.length) ∧
          (begun 0 ms).length ≤ attempts ∧
          ∀ r', phase = .finished r' → (begun 0 ms).length = attempts ∧ r' = r ∧ g' = g := by
  have whole : 0 + f.total = f.total := Nat.zero_add _
  obtain ⟨attempts, r, g, ends, alone⟩ :=
    attemptsFrom_ends what outcome ha whole (total_pos ha) nofun
  rw [after_zero ha] at alone
  have called : Recorded anyhow f [⟨⟨f, []⟩, .call what, ⟨f, [(what, .ready 0)]⟩⟩]
      ⟨f, [(what, (.ready 0 : CallPhase α))]⟩ := .step .start (.call what)
  have ready : Goes f what (f.scripted outcome) [⟨⟨f, []⟩, .call what, ⟨f, [(what, .ready 0)]⟩⟩] f
      (.ready 0) := ⟨(after_zero ha).symm, total_pos ha, nofun, rfl, rfl⟩
  obtain ⟨ms, r', g', run, n, ends', course⟩ := exists_finished ha whole called ready
  obtain ⟨-, rfl, rfl⟩ := ends.unique ends'
  refine ⟨attempts, r, g, ends, alone, ⟨ms, run, scripted_of_course course⟩, ?_⟩
  intro ms g' phase run follows
  have goes : Goes f what (f.scripted outcome) ms g' phase := sole_of_recorded ha run follows rfl
  have turn : ∀ {ended current}, Course f (f.scripted outcome) ms ended current →
      (begun 0 ms).length = ended + current ∧
        begun 0 ms = (List.range (begun 0 ms).length).map f.place := by
    intro ended current course
    have length : (begun 0 ms).length = ended + current := by simp [course.begun]
    exact ⟨length, length ▸ course.begun⟩
  cases phase with
  | ready a | resting a =>
    obtain ⟨-, lt, before, course⟩ := goes
    have fewer := ends.attempts_gt lt before
    obtain ⟨length, places⟩ := turn course
    exact ⟨places, by omega, nofun⟩
  | trying a position =>
    obtain ⟨-, -, lt, before, course⟩ := goes
    have fewer := ends.attempts_gt lt before
    obtain ⟨length, places⟩ := turn course
    exact ⟨places, by omega, nofun⟩
  | finished r' =>
    obtain ⟨n, ends', course⟩ := goes
    obtain ⟨rfl, rfl, rfl⟩ := ends.unique ends'
    obtain ⟨length, places⟩ := turn course
    refine ⟨places, by omega, fun r' same => ?_⟩
    cases same
    exact ⟨length, rfl, rfl⟩

def threeEndpoints : Failover :=
  ⟨["http://a", "http://b", "http://c"], 2, ⟨2, .ofMillis 200, .ofSecs 10⟩⟩

def answeredLate (attempt : Nat) (url : String) : Attempt String :=
  if attempt = 2 then .failure ⟨.rpc, url⟩
  else if attempt = 3 ∧ url = "http://a" then .value "0x1"
  else .timedOut

/-- The last of three endpoints is active and times out twice, and the first one comes next. -/
theorem sole_call_in_turn_wraps : threeEndpoints.active < 3 ∧
    threeEndpoints.callAlone "eth_blockNumber" answeredLate =
      (.ok "0x1", { threeEndpoints with active := 0 }) ∧
    ∃ ms, Recorded anyhow threeEndpoints ms
        ⟨{ threeEndpoints with active := 0 }, [("eth_blockNumber", .finished (.ok "0x1"))]⟩ ∧
      begun 0 ms = [2, 2, 0, 0] := by
  obtain ⟨attempts, r, g, ends, alone, ⟨ms, run, follows⟩, all⟩ :=
    sole_call_in_turn threeEndpoints (by decide) "eth_blockNumber" answeredLate
  have fourth : threeEndpoints.EndsSo "eth_blockNumber" (threeEndpoints.scripted answeredLate) 4
      (.ok "0x1") { threeEndpoints with active := 0 } := by
    refine .stopped (by decide) (fun i hi => ?_) id
    rcases i with _ | _ | _ | i
    · trivial
    · trivial
    · exact rfl
    · omega
  obtain ⟨rfl, rfl, rfl⟩ := ends.unique fourth
  obtain ⟨turns, -, last⟩ := all ms _ _ run follows
  obtain ⟨length, -, -⟩ := last _ rfl
  rw [length] at turns
  exact ⟨by decide, alone, ms, run, turns⟩

end Endpoints
end BridgeNotifier.Failover
