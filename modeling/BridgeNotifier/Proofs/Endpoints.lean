import BridgeNotifier.Failover
import Mathlib.Tactic.SplitIfs
set_option autoImplicit false

/-!
# Calls on shared endpoints

Any number of calls share the active endpoint of a list, start at any time and take their moves in
any order. An endpoint that always answers is found by all of them: the way from the active endpoint
to it never gets longer, since nobody moves on from it, and whoever has used up its attempts on
another one finds it shorter by one.
-/
namespace BridgeNotifier.Failover

variable {α : Type}

structure Endpoints (α : Type) where
  failover : Failover
  calls : List (String × CallPhase α)

inductive Endpoints.Move (α : Type) where
  | call (what : String)
  | attempt (i : Nat)
  | answer (i : Nat) (outcome : Attempt α)
  | wake (i : Nat)

def Endpoints.Move.caller? : Endpoints.Move α → Option Nat
  | .call _ => none
  | .attempt i | .answer i _ | .wake i => some i

namespace Endpoints

/-- `answers` tells how an attempt at a position may go. -/
inductive Step (answers : Nat → Attempt α → Prop) (P : Endpoints α) :
    Move α → Endpoints α → Prop where
  | call (what : String) : Step answers P (.call what) ⟨P.failover, P.calls ++ [(what, .ready 0)]⟩
  | attempt {i a : Nat} {what : String} (h : P.calls[i]? = some (what, .ready a)) :
      Step answers P (.attempt i) ⟨P.failover, P.calls.set i (what, P.failover.start a)⟩
  | answer {i a position : Nat} {what : String} {outcome : Attempt α}
      (h : P.calls[i]? = some (what, .trying a position)) (ok : answers position outcome) :
      Step answers P (.answer i outcome) ⟨(P.failover.proceed what a position outcome).2,
        P.calls.set i (what, (P.failover.proceed what a position outcome).1)⟩
  | wake {i a : Nat} {what : String} (h : P.calls[i]? = some (what, .resting a)) :
      Step answers P (.wake i) ⟨P.failover, P.calls.set i (what, .ready a)⟩

inductive Reaches (answers : Nat → Attempt α → Prop) (f : Failover) :
    List (Move α) → Endpoints α → Prop where
  | start : Reaches answers f [] ⟨f, []⟩
  | step {ms : List (Move α)} {mv : Move α} {P Q : Endpoints α} (before : Reaches answers f ms P)
      (step : P.Step answers mv Q) : Reaches answers f (ms ++ [mv]) Q

end Endpoints

/-- The attempts at one position always give a value, and what fails elsewhere may pass. Every
attempt comes to an end, by its timeout at the latest. -/
structure Healthy (answers : Nat → Attempt α → Prop) (healthy : Nat) : Prop where
  ends : ∀ position, ∃ outcome, answers position outcome
  value : ∀ outcome, answers healthy outcome → ∃ v, outcome = .value v
  transient : ∀ position e, answers position (.failure e) → e.isTransient = true

@[simp] theorem rotate_urls (f : Failover) (position : Nat) :
    (f.rotate position).urls = f.urls := by
  unfold rotate
  split <;> rfl

@[simp] theorem rotate_policy (f : Failover) (position : Nat) :
    (f.rotate position).policy = f.policy := by
  unfold rotate
  split <;> rfl

@[simp] theorem rotate_perUrl (f : Failover) (position : Nat) :
    (f.rotate position).perUrl = f.perUrl := by
  simp [perUrl]

theorem rotate_active (f : Failover) (position : Nat) : (f.rotate position).active =
    if f.active = position then (position + 1) % f.urls.length else f.active := by
  unfold rotate
  split <;> rfl

theorem perUrl_pos (f : Failover) : 0 < f.perUrl := by
  unfold perUrl
  omega

theorem attempt_lt_total {f : Failover} {attempt : Nat}
    (h : attempt / f.perUrl < f.urls.length) : attempt < f.total := by
  rw [total, Nat.mul_comm]
  exact (Nat.div_lt_iff_lt_mul f.perUrl_pos).1 h

/-- How often the active endpoint has to change on the way from a position to the healthy one. -/
def away (f : Failover) (healthy position : Nat) : Nat :=
  if position ≤ healthy then healthy - position else f.urls.length + healthy - position

section Way
variable {f : Failover} {healthy position other : Nat}

@[simp] theorem away_rotate (f : Failover) (healthy left position : Nat) :
    (f.rotate left).away healthy position = f.away healthy position := by
  simp [away]

theorem away_next (hh : healthy < f.urls.length) (hp : position < f.urls.length)
    (ne : position ≠ healthy) :
    f.away healthy ((position + 1) % f.urls.length) + 1 = f.away healthy position := by
  unfold away
  by_cases last : position + 1 = f.urls.length
  · have before : healthy < position :=
      Nat.lt_of_le_of_ne (Nat.le_of_lt_succ (Nat.lt_of_lt_of_eq hh last.symm)) ne.symm
    rw [last, Nat.mod_self, if_pos (Nat.zero_le _), if_neg (Nat.not_le.2 before)]
    omega
  · rw [Nat.mod_eq_of_lt (by omega)]
    split <;> split <;> omega

theorem away_inj (hp : position < f.urls.length) (ho : other < f.urls.length)
    (h : f.away healthy position = f.away healthy other) :
    position = other := by
  unfold away at h
  split at h <;> split at h <;> omega

end Way

/-- Attempts that were used up one after another on other endpoints have brought the healthy one
closer: what is left of the way is no more than what is left of the endpoints. -/
def Near (f : Failover) (healthy : Nat) : CallPhase α → Prop
  | .ready attempt | .resting attempt =>
    f.away healthy f.active + attempt / f.perUrl < f.urls.length
  | .trying attempt position => position < f.urls.length ∧
      f.away healthy position + attempt / f.perUrl < f.urls.length ∧
      f.away healthy f.active ≤ f.away healthy position
  | .finished result => ∃ v, result = .ok v

section Phases
variable {f : Failover} {healthy attempt position : Nat}

theorem near_first (hh : healthy < f.urls.length) (ha : f.active < f.urls.length) :
    f.Near healthy (.ready 0 : CallPhase α) := by
  simp only [Near, away, Nat.zero_div]
  split <;> omega

theorem near_start (ha : f.active < f.urls.length)
    (h : f.Near healthy (.ready attempt : CallPhase α)) :
    f.Near healthy (f.start attempt : CallPhase α) := by
  have here : f.position = f.active := Nat.mod_eq_of_lt ha
  simp only [start, here]
  exact ⟨ha, h, Nat.le_refl _⟩

theorem away_active_rotate_le (hh : healthy < f.urls.length) (hp : position < f.urls.length)
    (ne : position ≠ healthy) :
    f.away healthy (f.rotate position).active ≤ f.away healthy f.active := by
  rw [rotate_active]
  split
  · next here =>
    have next := away_next hh hp ne
    rw [here]
    omega
  · exact Nat.le_refl _

theorem away_active_rotate_lt (hh : healthy < f.urls.length) (ha : f.active < f.urls.length)
    (hp : position < f.urls.length) (ne : position ≠ healthy)
    (h : f.away healthy f.active ≤ f.away healthy position) :
    f.away healthy (f.rotate position).active < f.away healthy position := by
  rw [rotate_active]
  split
  · have next := away_next hh hp ne
    omega
  · next elsewhere =>
    exact Nat.lt_of_le_of_ne h fun same => elsewhere (away_inj ha hp same)

theorem near_retry (hh : healthy < f.urls.length) (ha : f.active < f.urls.length)
    (ne : position ≠ healthy) (h : f.Near healthy (.trying attempt position : CallPhase α))
    (e : Error) :
    (@retry α f attempt position e).2.Near healthy (@retry α f attempt position e).1 := by
  obtain ⟨hp, near, le⟩ := h
  unfold retry
  split
  · next used =>
    have closer := away_active_rotate_lt hh ha hp ne le
    have quotient : (attempt + 1) / f.perUrl = attempt / f.perUrl + 1 :=
      Nat.succ_div_of_mod_eq_zero used
    have more : attempt + 1 < f.total :=
      attempt_lt_total (by omega)
    simp only [if_pos more, Near, away_rotate, rotate_perUrl, rotate_urls]
    omega
  · next unused =>
    have quotient : (attempt + 1) / f.perUrl = attempt / f.perUrl :=
      Nat.succ_div_of_mod_ne_zero unused
    simp only [Near]
    omega

/-- Whatever an attempt comes to, the active endpoint stays as far from the healthy one or gets
closer to it. -/
structure Closer (f g : Failover) (healthy : Nat) : Prop where
  urls : g.urls = f.urls
  policy : g.policy = f.policy
  active : g.active < g.urls.length
  away : g.away healthy g.active ≤ f.away healthy f.active

theorem Closer.refl (ha : f.active < f.urls.length) : f.Closer f healthy :=
  ⟨rfl, rfl, ha, Nat.le_refl _⟩

theorem Closer.trans {g k : Failover} (h : f.Closer g healthy) (h' : g.Closer k healthy) :
    f.Closer k healthy :=
  ⟨h'.urls.trans h.urls, h'.policy.trans h.policy, h'.active, Nat.le_trans h'.away h.away⟩

theorem Closer.total {g : Failover} (h : f.Closer g healthy) : g.total = f.total := by
  simp [Failover.total, perUrl, h.urls, h.policy]

theorem closer_rotate (hh : healthy < f.urls.length) (ha : f.active < f.urls.length)
    (hp : position < f.urls.length) (ne : position ≠ healthy) : f.Closer (f.rotate position) healthy := by
  refine ⟨rotate_urls f position, rotate_policy f position, ?_, ?_⟩
  · rw [rotate_urls, rotate_active]
    split
    · exact Nat.mod_lt _ (by omega)
    · exact ha
  · rw [away_rotate]
    exact away_active_rotate_le hh hp ne

theorem closer_retry (hh : healthy < f.urls.length) (ha : f.active < f.urls.length)
    (hp : position < f.urls.length) (ne : position ≠ healthy) (e : Error) :
    f.Closer (@retry α f attempt position e).2 healthy := by
  unfold retry
  split
  · exact closer_rotate hh ha hp ne
  · exact .refl ha

theorem Near.closer {g : Failover} {phase : CallPhase α} (h : f.Near healthy phase)
    (closer : f.Closer g healthy) : g.Near healthy phase := by
  have way : ∀ at_, g.away healthy at_ = f.away healthy at_ := by simp [away, closer.urls]
  have same : g.perUrl = f.perUrl := by simp [perUrl, closer.policy]
  have le := closer.away
  cases phase with
  | ready a | resting a =>
    simp only [Near, same, closer.urls] at h ⊢
    omega
  | trying a p =>
    simp only [Near, same, closer.urls, way p] at h ⊢
    omega
  | finished r => exact h

section Answers
variable {answers : Nat → Attempt α → Prop} {outcome : Attempt α}

theorem Healthy.ne_of_failure (alive : Healthy answers healthy) (ok : answers position outcome)
    (failed : ∀ v, outcome ≠ .value v) : position ≠ healthy := by
  rintro rfl
  obtain ⟨v, hv⟩ := alive.value outcome ok
  exact failed v hv

theorem near_proceed (alive : Healthy answers healthy) (hh : healthy < f.urls.length)
    (ha : f.active < f.urls.length) (h : f.Near healthy (.trying attempt position : CallPhase α))
    (ok : answers position outcome) (what : String) :
    (f.proceed what attempt position outcome).2.Near healthy
        (f.proceed what attempt position outcome).1 ∧
      f.Closer (f.proceed what attempt position outcome).2 healthy := by
  cases outcome with
  | value v => exact ⟨⟨v, rfl⟩, .refl ha⟩
  | failure e =>
    have ne := alive.ne_of_failure ok (by simp)
    simp only [proceed, alive.transient position e ok, if_true]
    exact ⟨near_retry hh ha ne h e, closer_retry hh ha h.1 ne e⟩
  | timedOut =>
    have ne := alive.ne_of_failure ok (by simp)
    exact ⟨near_retry hh ha ne h _, closer_retry hh ha h.1 ne _⟩

end Answers
end Phases

def movesUpTo (total : Nat) : CallPhase α → Nat
  | .ready attempt => 3 * attempt + 1
  | .trying attempt _ => 3 * attempt + 2
  | .resting attempt => 3 * attempt
  | .finished _ => 3 * total

theorem movesUpTo_proceed {f : Failover} {attempt : Nat} (h : attempt < f.total)
    (what : String) (position : Nat) (outcome : Attempt α) :
    movesUpTo f.total (.trying attempt position : CallPhase α) <
      movesUpTo f.total (f.proceed what attempt position outcome).1 := by
  have retried : ∀ e, 3 * attempt + 2 <
      movesUpTo f.total (@retry α f attempt position e).1 := by
    intro e
    unfold retry
    split_ifs <;> simp only [movesUpTo] <;> omega
  cases outcome with
  | value v =>
    simp only [proceed, movesUpTo]
    omega
  | failure e =>
    simp only [proceed]
    split_ifs
    · exact retried e
    · simp only [movesUpTo]
      omega
  | timedOut => exact retried _

namespace Endpoints

def movesOf (ms : List (Move α)) (i : Nat) : Nat := ms.countP (·.caller? = some i)

theorem movesOf_append_self {ms : List (Move α)} {mv : Move α} {i : Nat}
    (h : mv.caller? = some i) : movesOf (ms ++ [mv]) i = movesOf ms i + 1 := by
  simp [movesOf, h]

theorem movesOf_append_of_ne {ms : List (Move α)} {mv : Move α} {i : Nat}
    (h : mv.caller? ≠ some i) : movesOf (ms ++ [mv]) i = movesOf ms i := by
  simp [movesOf, h]

structure Sound (f : Failover) (healthy : Nat) (ms : List (Move α)) (P : Endpoints α) : Prop where
  closer : f.Closer P.failover healthy
  near : ∀ c ∈ P.calls, P.failover.Near healthy c.2
  moves : ∀ i c, P.calls[i]? = some c → movesOf ms i ≤ movesUpTo f.total c.2
  later : ∀ i, P.calls.length ≤ i → movesOf ms i = 0

variable {f : Failover} {healthy : Nat} {answers : Nat → Attempt α → Prop} {ms : List (Move α)}
  {P Q : Endpoints α} {mv : Move α}

theorem sound_call (h : Sound f healthy ms P) (hh : healthy < f.urls.length) (what : String) :
    Sound f healthy (ms ++ [.call what]) ⟨P.failover, P.calls ++ [(what, .ready 0)]⟩ where
  closer := h.closer
  near c hc := by
    obtain hc | hc := List.mem_append.1 hc
    · exact h.near c hc
    · obtain rfl := List.mem_singleton.1 hc
      exact near_first (h.closer.urls ▸ hh) h.closer.active
  moves i c hc := by
    rw [movesOf_append_of_ne (by simp [Move.caller?])]
    by_cases hi : i < P.calls.length
    · exact h.moves i c (by rwa [List.getElem?_append_left hi] at hc)
    · rw [h.later i (Nat.not_lt.1 hi)]
      exact Nat.zero_le _
  later i hi := by
    rw [movesOf_append_of_ne (by simp [Move.caller?])]
    exact h.later i (by simp at hi; omega)

theorem sound_set {g : Failover} {i : Nat} {what : String} {phase next : CallPhase α}
    (h : Sound f healthy ms P) (hc : P.calls[i]? = some (what, phase))
    (hmv : mv.caller? = some i) (closer : P.failover.Closer g healthy)
    (near : g.Near healthy next) (more : movesUpTo f.total phase < movesUpTo f.total next) :
    Sound f healthy (ms ++ [mv]) ⟨g, P.calls.set i (what, next)⟩ where
  closer := h.closer.trans closer
  near c hc := by
    obtain hc | rfl := List.mem_or_eq_of_mem_set hc
    · exact (h.near c hc).closer closer
    · exact near
  moves j c hj := by
    have bound := h.moves i _ hc
    by_cases same : j = i
    · subst same
      obtain ⟨hlt, -⟩ := List.getElem?_eq_some_iff.1 hc
      rw [List.getElem?_set_self hlt, Option.some.injEq] at hj
      subst hj
      rw [movesOf_append_self hmv]
      exact Nat.lt_of_le_of_lt bound more
    · rw [List.getElem?_set_ne (Ne.symm same)] at hj
      rw [movesOf_append_of_ne (by simp [hmv, Ne.symm same])]
      exact h.moves j c hj
  later j hj := by
    rw [List.length_set] at hj
    have other : i ≠ j := by
      rintro rfl
      rw [List.getElem?_eq_none hj] at hc
      cases hc
    rw [movesOf_append_of_ne (by simp [hmv, other])]
    exact h.later j hj

theorem sound_step (alive : Healthy answers healthy) (hh : healthy < f.urls.length)
    (h : Sound f healthy ms P) (step : P.Step answers mv Q) : Sound f healthy (ms ++ [mv]) Q := by
  have here : healthy < P.failover.urls.length := h.closer.urls ▸ hh
  have active := h.closer.active
  cases step with
  | call what => exact sound_call h hh what
  | attempt hc =>
    have near := h.near _ (List.mem_of_getElem? hc)
    exact sound_set h hc rfl (.refl active) (near_start active near) (Nat.lt_succ_self _)
  | @answer i a position what outcome hc ok =>
    have near := h.near _ (List.mem_of_getElem? hc)
    obtain ⟨next, closer⟩ := near_proceed alive here active near ok what
    have unfinished : a < P.failover.total := attempt_lt_total (by have := near.2.1; omega)
    have more := movesUpTo_proceed unfinished what position outcome
    rw [h.closer.total] at more
    exact sound_set h hc rfl closer next more
  | wake hc =>
    have near := h.near _ (List.mem_of_getElem? hc)
    exact sound_set h hc rfl (.refl active) near (Nat.lt_succ_self _)

theorem sound_of_reaches (alive : Healthy answers healthy) (hh : healthy < f.urls.length)
    (ha : f.active < f.urls.length) (run : Reaches answers f ms P) : Sound f healthy ms P := by
  induction run with
  | start => exact ⟨.refl ha, by simp, by simp, by simp [movesOf]⟩
  | step _ step ih => exact sound_step alive hh ih step

end Endpoints

theorem active_lt_of_ofUrls {urls : List String} {policy : FailoverPolicy} {f : Failover}
    (made : ofUrls urls policy = .ok f) : f.active < f.urls.length := by
  unfold ofUrls at made
  split at made
  · cases made
  · next us hne =>
    cases made
    exact List.length_pos_iff.2 hne

/-- Every call on endpoints one of which always answers returns a value: it has returned one, or it
can go on and has made fewer moves than it may make before it returns. -/
theorem every_call_returns {urls : List String} {policy : FailoverPolicy} {f : Failover}
    (made : ofUrls urls policy = .ok f) {answers : Nat → Attempt α → Prop} {healthy : Nat}
    (hh : healthy < f.urls.length) (alive : Healthy answers healthy)
    {ms : List (Endpoints.Move α)} {P : Endpoints α} (run : Endpoints.Reaches answers f ms P)
    {i : Nat} {what : String} {phase : CallPhase α} (hc : P.calls[i]? = some (what, phase)) :
    (∃ v, phase = .finished (.ok v)) ∨
      (∃ mv Q, mv.caller? = some i ∧ P.Step answers mv Q) ∧
        Endpoints.movesOf ms i < 3 * f.total := by
  have sound := Endpoints.sound_of_reaches alive hh (active_lt_of_ofUrls made) run
  have near := sound.near _ (List.mem_of_getElem? hc)
  have moves := sound.moves i _ hc
  rw [← sound.closer.total] at moves ⊢
  cases phase with
  | ready a =>
    have unfinished : a < P.failover.total := attempt_lt_total (by simp only [Near] at near; omega)
    refine .inr ⟨⟨_, _, rfl, .attempt hc⟩, ?_⟩
    simp only [movesUpTo] at moves
    omega
  | trying a position =>
    have unfinished : a < P.failover.total := attempt_lt_total (by have := near.2.1; omega)
    obtain ⟨outcome, ok⟩ := alive.ends position
    refine .inr ⟨⟨_, _, rfl, .answer hc ok⟩, ?_⟩
    simp only [movesUpTo] at moves
    omega
  | resting a =>
    have unfinished : a < P.failover.total := attempt_lt_total (by simp only [Near] at near; omega)
    refine .inr ⟨⟨_, _, rfl, .wake hc⟩, ?_⟩
    simp only [movesUpTo] at moves
    omega
  | finished r =>
    obtain ⟨v, rfl⟩ := near
    exact .inl ⟨v, rfl⟩

def secondAnswers (position : Nat) (outcome : Attempt String) : Prop :=
  outcome = if position = 1 then .value "0x1" else .timedOut

theorem healthy_secondAnswers : Healthy secondAnswers 1 where
  ends position := ⟨_, rfl⟩
  value outcome h := ⟨"0x1", h⟩
  transient position e h := by
    unfold secondAnswers at h
    split at h <;> cases h

def twoEndpoints (active : Nat) : Failover :=
  ⟨["http://a", "http://b"], active, ⟨1, .ofMillis 200, .ofSecs 10⟩⟩

def twoCalls : List (Endpoints.Move String) :=
  [.call "eth_blockNumber", .call "eth_getBlockByNumber", .attempt 0, .attempt 1,
    .answer 0 .timedOut, .attempt 0, .answer 1 .timedOut, .attempt 1, .answer 1 (.value "0x1")]

theorem reaches_twoCalls : Endpoints.Reaches secondAnswers (twoEndpoints 0) twoCalls
    ⟨twoEndpoints 1,
      [("eth_blockNumber", .trying 1 1), ("eth_getBlockByNumber", .finished (.ok "0x1"))]⟩ := by
  have idle : Endpoints.Reaches secondAnswers (twoEndpoints 0) [] ⟨twoEndpoints 0, []⟩ := .start
  have started := idle.step (.call "eth_blockNumber") |>.step (.call "eth_getBlockByNumber")
    |>.step (.attempt (i := 0) rfl) |>.step (.attempt (i := 1) rfl)
  have moved := started.step (.answer (i := 0) rfl rfl) |>.step (.attempt (i := 0) rfl)
    |>.step (.answer (i := 1) rfl rfl)
  exact moved.step (.attempt (i := 1) rfl) |>.step (.answer (i := 1) rfl rfl)

theorem both_calls_return :
    (∃ v : String, (.trying 1 1 : CallPhase String) = .finished (.ok v)) ∨
      (∃ mv Q, mv.caller? = some 0 ∧ Endpoints.Step secondAnswers ⟨twoEndpoints 1,
          [("eth_blockNumber", .trying 1 1), ("eth_getBlockByNumber", .finished (.ok "0x1"))]⟩
          mv Q) ∧
        Endpoints.movesOf twoCalls 0 < 3 * (twoEndpoints 0).total :=
  every_call_returns (show ofUrls ["http://a", "http://b"] ⟨1, .ofMillis 200, .ofSecs 10⟩ =
    .ok (twoEndpoints 0) by rfl) (by decide) healthy_secondAnswers reaches_twoCalls rfl

end BridgeNotifier.Failover
