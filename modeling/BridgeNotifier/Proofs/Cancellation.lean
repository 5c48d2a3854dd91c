import BridgeNotifier.Proofs.Completion
import Mathlib.Logic.Function.Basic
import Mathlib.Order.Monotone.Basic
set_option autoImplicit false

namespace BridgeNotifier

/-- The surroundings of a loop on a clock. A wait ends when its timer fires or when the loop is told
to stop; once both have come, it may end either way. Everything else takes some time. -/
def Surroundings.stoppedAt (cancel : Nat) : Surroundings Nat := fun now e later =>
  match e with
  | ⟨.pause deadline (.loop _), fired⟩ =>
    later = max now (min (Interval.nextMilli deadline) cancel) ∧
      (if fired then Interval.nextMilli deadline else cancel) ≤ later
  | ⟨.instant, instant⟩ => instant = now ∧ later = now
  | _ => now ≤ later

/-- A task in service from an instant on, and the instant when it is told to stop. -/
structure Service where
  setup : Setup
  task : Task
  interval : Interval
  positive : 0 < interval.nanos
  start : Nat
  cancel : Nat

structure Service.Wait where
  deadline : Nat
  now : Nat
  deriving DecidableEq, Repr

/-- The tick after a wait begins when it is due, and at once if that has passed. -/
def Service.Wait.begins (w : Service.Wait) : Nat :=
  max w.now (Interval.nextMilli w.deadline)

namespace Service

variable (v : Service)

def program : Program Unit :=
  v.setup.periodic v.task v.interval

def around : Surroundings Nat :=
  .stoppedAt v.cancel

def rounds (deadline : Nat) : Program Unit :=
  Program.loop (.periodic v.setup v.task v.interval deadline)

def pause (deadline : Nat) (fired : Bool) : Event :=
  ⟨.pause deadline (.loop v.task.name), fired⟩

def tick : Program Nat :=
  .ask .instant fun begins => (v.setup.countedTick v.task).bind fun _ => .done begins

def next (deadline begins : Nat) : Program Unit :=
  v.rounds (Setup.nextRound v.interval deadline begins)

def after (deadline : Nat) (fired : Bool) : Program Unit :=
  if fired then v.tick.bind (v.next deadline) else .done ()

variable {v} {lasts lasts' : Nat → Nat} {n deadline now begins later : Nat} {es : List Event}
variable {p : Program Unit}

theorem periodicRound_eq (v : Service) (deadline : Nat) :
    v.setup.periodicRound v.task v.interval deadline =
      .ask (.pause deadline (.loop v.task.name)) (v.after deadline) := by
  refine congrArg (Program.ask _) (funext fun fired => ?_)
  cases fired with
  | false => rfl
  | true =>
    refine congrArg (Program.ask .instant) (funext fun begins => ?_)
    change (v.setup.countedTick v.task).bind _ = _
    rw [Program.bind_assoc]
    rfl

theorem body_rounds (v : Service) (deadline : Nat) :
    (Loop.periodic v.setup v.task v.interval deadline).body.bind Program.done =
      .ask (.pause deadline (.loop v.task.name)) (v.after deadline) := by
  rw [Program.bind_done, Loop.body, periodicRound_eq]

theorem le_of_around {e : Event} (h : v.around now e later) : now ≤ later := by
  obtain ⟨r, x⟩ := e
  cases r with
  | pause deadline stop =>
    cases stop with
    | loop name => exact h.1 ▸ Nat.le_max_left ..
    | lease l => exact h
  | instant => exact Nat.le_of_eq h.2.symm
  | _ => exact h

theorem le_of_leads {α : Type} {p q : Program α} (run : p.Leads v.around now es q later) :
    now ≤ later := by
  induction run with
  | refl => exact Nat.le_refl _
  | ask h _ ih => exact Nat.le_trans (le_of_around h) ih
  | call _ ih => exact ih

theorem tick_begins {a : Nat} (run : v.tick.Leads v.around begins es (.done a) later) :
    a = begins := by
  cases run with
  | ask h rest =>
    obtain ⟨rfl, rfl⟩ := h
    obtain ⟨_, _, _, _, _, last, _⟩ := rest.of_bind
    cases last
    rfl

theorem exists_tick (v : Service) (begins lasts : Nat) :
    ∃ es, v.tick.Leads v.around begins es (.done begins) (begins + lasts) := by
  -- the tick asks for its lock, and that call takes all the time before it fails
  have token : v.around begins ⟨.token, "replica"⟩ begins := Nat.le_refl _
  have locked : v.around begins ⟨.store (.tryLock (v.setup.lockKey v.task) "replica"
      v.setup.config.lockTtl), (.error ⟨.keyValue, "timed out"⟩ : Except Error Bool)⟩
      (begins + lasts) := Nat.le_add_right ..
  have counted : v.around (begins + lasts) ⟨.measure (.tickEnded v.task.name "error"), ()⟩
    (begins + lasts) := Nat.le_refl _
  have counted' : v.around (begins + lasts) ⟨.measure (.tickFailed v.task.name .keyValue), ()⟩
    (begins + lasts) := Nat.le_refl _
  exact ⟨_, .ask ⟨rfl, rfl⟩ (.ask token (.ask locked (.ask counted (.ask counted' (.refl _ _)))))⟩

section Runs
variable (v lasts)

/-- So many ticks have been made and the loop is about to wait for the next one: what happened until
then, the instant the next tick is due at, and the instant now. -/
inductive Serves : Nat → List Event → Nat → Nat → Prop where
  | start : Serves 0 [⟨.instant, v.start⟩] v.start v.start
  | tick {n deadline now begins : Nat} {es ticked : List Event}
    (served : Serves n es deadline now) (fires : v.around now (v.pause deadline true) begins)
    (run : v.tick.Leads v.around begins ticked (.done begins) (begins + lasts n)) :
    Serves (n + 1) (es ++ v.pause deadline true :: ticked)
      (Setup.nextRound v.interval deadline begins) (begins + lasts n)

/-- Where a service can stand: at its start, before a wait, in a tick of which only a rest is left,
or stopped, which it is told while it waits. -/
inductive Stands : List Event → Program Unit → Nat → Prop where
  | starting : Stands [] v.program v.start
  | waiting {n deadline now : Nat} {es : List Event} {p : Program Unit}
    (served : v.Serves lasts n es deadline now)
    (hp : p = v.rounds deadline ∨ p = v.setup.periodicRound v.task v.interval deadline) :
    Stands es p now
  | ticking {n deadline now begins later : Nat} {es ticked : List Event} {rest : Program Nat}
    (served : v.Serves lasts n es deadline now)
    (fires : v.around now (v.pause deadline true) begins)
    (run : v.tick.Leads v.around begins ticked rest later) :
    Stands (es ++ v.pause deadline true :: ticked) (rest.bind (v.next deadline)) later
  | stopped {n deadline now later : Nat} {es : List Event}
    (served : v.Serves lasts n es deadline now)
    (told : v.around now (v.pause deadline false) later) :
    Stands (es ++ [v.pause deadline false]) (.done ()) later

end Runs

theorem Serves.congr (served : v.Serves lasts n es deadline now) (same : ∀ k < n, lasts' k = lasts k) :
    v.Serves lasts' n es deadline now := by
  induction served with
  | start => exact .start
  | @tick n deadline now begins es ticked served fires run ih =>
    have last := same n n.lt_succ_self
    rw [← last] at run ⊢
    exact .tick (ih fun k hk => same k (by omega)) fires run

theorem leads_pause {fired : Bool} (h : v.around now (v.pause deadline fired) later) :
    (v.rounds deadline).Leads v.around now [v.pause deadline fired] (v.after deadline fired)
      later := by
  refine .call ?_
  rw [body_rounds]
  exact .ask h (.refl _ _)

theorem Serves.leads (served : v.Serves lasts n es deadline now) :
    v.program.Leads v.around v.start es (v.rounds deadline) now := by
  induction served with
  | start => exact .ask ⟨rfl, rfl⟩ (.refl _ _)
  | tick served fires run ih => exact ih.trans ((leads_pause fires).trans (run.bind _))

theorem Stands.leads (stands : v.Stands lasts es p now) :
    v.program.Leads v.around v.start es p now := by
  cases stands with
  | starting => exact .refl _ _
  | @waiting n deadline _ _ _ served hp =>
    have waits : (v.rounds deadline).Leads v.around now [] p now := by
      obtain rfl | rfl := hp
      · exact .refl _ _
      · refine .call ?_
        rw [body_rounds, periodicRound_eq]
        exact .refl _ _
    simpa using served.leads.trans waits
  | ticking served fires run => exact served.leads.trans ((leads_pause fires).trans (run.bind _))
  | stopped served told => exact served.leads.trans (leads_pause told)

theorem rounds_cases (run : (v.rounds deadline).Leads v.around now es p later) :
    (es = [] ∧ later = now ∧
      (p = v.rounds deadline ∨ p = v.setup.periodicRound v.task v.interval deadline)) ∨
    ∃ fired ends rest, es = v.pause deadline fired :: rest ∧
      v.around now (v.pause deadline fired) ends ∧
      (v.after deadline fired).Leads v.around ends rest p later := by
  cases run with
  | refl => exact .inl ⟨rfl, rfl, .inl rfl⟩
  | call run =>
    rw [body_rounds] at run
    cases run with
    | refl => exact .inl ⟨rfl, rfl, .inr (periodicRound_eq v deadline).symm⟩
    | ask h rest => exact .inr ⟨_, _, _, rfl, h, rest⟩

theorem stands_of_rounds {rest : List Event} (served : v.Serves lasts n es deadline now)
    (run : (v.rounds deadline).Leads v.around now rest p later) :
    ∃ lasts, v.Stands lasts (es ++ rest) p later := by
  -- every tick that came to its end leaves fewer events
  induction hlen : rest.length using Nat.strongRecOn
    generalizing lasts n es deadline now rest with
  | _ length ih =>
  obtain ⟨rfl, rfl, hp⟩ | ⟨fired, begins, rest, rfl, fires, run⟩ := rounds_cases run
  · rw [List.append_nil]
    exact ⟨lasts, .waiting served hp⟩
  cases fired with
  | false =>
    cases run
    exact ⟨lasts, .stopped served fires⟩
  | true =>
    obtain ⟨p', part, rfl⟩ | ⟨ticked, a, ends, left, ran, onward, rfl⟩ := run.bind_cases
    · exact ⟨lasts, .ticking served fires part⟩
    · obtain rfl := tick_begins ran
      have duration : a + (ends - a) = ends := Nat.add_sub_cancel' (le_of_leads ran)
      have longer : v.Serves (Function.update lasts n (ends - a)) n es deadline now :=
        served.congr fun k hk => Function.update_of_ne (Nat.ne_of_lt hk) ..
      have served' := longer.tick fires (by simpa [duration] using ran)
      rw [Function.update_self, duration] at served'
      have shorter : left.length < length := by
        rw [← hlen, List.length_cons, List.length_append]
        omega
      have later := ih _ shorter served' onward rfl
      rwa [List.append_assoc] at later

theorem stands_of_leads (run : v.program.Leads v.around v.start es p now) :
    ∃ lasts, v.Stands lasts es p now := by
  cases run with
  | refl => exact ⟨fun _ => 0, .starting⟩
  | ask h rest =>
    obtain ⟨rfl, rfl⟩ := h
    exact stands_of_rounds (Serves.start : v.Serves (fun _ => 0) ..) rest

section Schedules
variable (v lasts)

def wait : Nat → Wait
  | 0 => ⟨v.start, v.start⟩
  | n + 1 =>
    let w := wait n
    ⟨Setup.nextRound v.interval w.deadline w.begins, w.begins + lasts n⟩

def Begins (begins : Nat) : Prop :=
  ∃ n es deadline now, v.Serves lasts n es deadline now ∧
    v.around now (v.pause deadline true) begins

/-- The tick in progress when the service is told to stop ends before the next one is due. If it is
told before it starts, it does not start on a whole millisecond, at which the first one is due. -/
structure InTime : Prop where
  start : v.cancel < v.start → v.start < Interval.nextMilli v.start
  tick : ∀ n, (v.wait lasts n).begins ≤ v.cancel → v.cancel < (v.wait lasts (n + 1)).now →
    (v.wait lasts (n + 1)).now < Interval.nextMilli (v.wait lasts (n + 1)).deadline

end Schedules

theorem begins_of_fires (fires : v.around now (v.pause deadline true) begins) :
    begins = (Wait.mk deadline now).begins := by
  obtain ⟨ends, due⟩ := fires
  have due : Interval.nextMilli deadline ≤ begins := due
  simp only [Wait.begins]
  omega

theorem overdue_of_fires (fires : v.around now (v.pause deadline true) begins)
    (late : v.cancel < begins) : v.cancel < now ∧ Interval.nextMilli deadline ≤ now := by
  obtain ⟨ends, due⟩ := fires
  have due : Interval.nextMilli deadline ≤ begins := due
  omega

theorem fires_overdue (due : Interval.nextMilli deadline ≤ now) :
    v.around now (v.pause deadline true) now := by
  refine ⟨?_, due⟩
  omega

theorem fires_before (early : (Wait.mk deadline now).begins ≤ v.cancel) :
    v.around now (v.pause deadline true) (Wait.mk deadline now).begins := by
  simp only [Wait.begins] at early ⊢
  refine ⟨?_, Nat.le_max_right ..⟩
  omega

theorem Serves.wait_eq (served : v.Serves lasts n es deadline now) :
    v.wait lasts n = ⟨deadline, now⟩ := by
  induction served with
  | start => rfl
  | tick served fires run ih => rw [wait, ih, begins_of_fires fires]

theorem begins_le_succ (n : Nat) : (v.wait lasts n).begins ≤ (v.wait lasts (n + 1)).begins :=
  Nat.le_trans (Nat.le_add_right _ (lasts n)) (Nat.le_max_left ..)

theorem begins_mono : Monotone fun n => (v.wait lasts n).begins :=
  monotone_nat_of_le_succ begins_le_succ

theorem exists_serves (early : ∀ k < n, (v.wait lasts k).begins ≤ v.cancel) :
    ∃ es, v.Serves lasts n es (v.wait lasts n).deadline (v.wait lasts n).now := by
  induction n with
  | zero => exact ⟨_, .start⟩
  | succ n ih =>
    obtain ⟨es, served⟩ := ih fun k hk => early k (by omega)
    obtain ⟨ticked, run⟩ := exists_tick v (v.wait lasts n).begins (lasts n)
    exact ⟨_, served.tick (fires_before (early n n.lt_succ_self)) run⟩

theorem InTime.begins_le (inTime : v.InTime lasts) (served : v.Serves lasts n es deadline now)
    (fires : v.around now (v.pause deadline true) begins) : begins ≤ v.cancel := by
  induction served generalizing begins with
  | start =>
    by_contra late
    obtain ⟨past, due⟩ := overdue_of_fires fires (Nat.lt_of_not_le late)
    exact absurd due (Nat.not_le_of_lt (inTime.start past))
  | @tick n deadline now begun es ticked served before run ih =>
    by_contra late
    obtain ⟨past, due⟩ := overdue_of_fires fires (Nat.lt_of_not_le late)
    -- the tick before began in time, so it was in progress
    have early : (v.wait lasts n).begins ≤ v.cancel := by
      rw [served.wait_eq, ← begins_of_fires before]
      exact ih before
    have ends := inTime.tick n early
    rw [(served.tick before run).wait_eq] at ends
    exact absurd due (Nat.not_le_of_lt (ends past))

theorem inTime_of_begins_le (h : ∀ begins, v.Begins lasts begins → begins ≤ v.cancel) :
    v.InTime lasts where
  start past := by
    by_contra due
    have fires := fires_overdue (v := v) (Nat.le_of_not_lt due)
    exact absurd (h _ ⟨0, _, _, _, .start, fires⟩) (Nat.not_le_of_lt past)
  tick n early past := by
    by_contra due
    obtain ⟨es, served⟩ := exists_serves (n := n + 1) fun k hk =>
      Nat.le_trans (begins_mono (Nat.le_of_lt_succ hk)) early
    have fires := fires_overdue (v := v) (Nat.le_of_not_lt due)
    exact absurd (h _ ⟨n + 1, es, _, _, served, fires⟩) (Nat.not_le_of_lt past)

/-- A service stops only while it waits, after ticks that all came to their end. If ticks last so
long, none begins after the service was told to stop exactly if the one in progress then ends before
the next one is due. -/
theorem stops_between_ticks (v : Service) :
    (∀ es p now, v.program.Leads v.around v.start es p now ↔ ∃ lasts, v.Stands lasts es p now) ∧
    ∀ lasts, (∀ begins, v.Begins lasts begins → begins ≤ v.cancel) ↔ v.InTime lasts := by
  constructor
  · intro es p now
    exact ⟨stands_of_leads, fun ⟨_, stands⟩ => stands.leads⟩
  · intro lasts
    refine ⟨inTime_of_begins_le, fun inTime begins => ?_⟩
    rintro ⟨n, es, deadline, now, served, fires⟩
    exact inTime.begins_le served fires

/-- A tick every second, the first of which takes two and a half; half a second after it began the
service is told to stop. -/
def cancelledOnce : Service where
  setup := ⟨{}, true⟩
  task := .maturity
  interval := .ofSecs 1
  positive := by decide
  start := 0
  cancel := 500000000

/-- It may begin a second tick two seconds after it was told to stop. -/
theorem not_stopped_cancelledOnce : ∃ es p,
    cancelledOnce.program.Leads cancelledOnce.around 0
      (es ++ [cancelledOnce.pause 1000000000 true]) p 2500000000 ∧
    cancelledOnce.cancel < 2500000000 := by
  have waits : cancelledOnce.wait (fun _ => 2500000000) 1 = ⟨1000000000, 2500000000⟩ := by
    decide +kernel
  have early : ∀ k < 1, (cancelledOnce.wait (fun _ => 2500000000) k).begins ≤ 500000000 := by
    decide
  obtain ⟨es, served⟩ := exists_serves early
  rw [waits] at served
  have fires : cancelledOnce.around 2500000000 (cancelledOnce.pause 1000000000 true) 2500000000 :=
    fires_overdue (by decide)
  exact ⟨es, _, served.leads.trans (leads_pause fires), by decide⟩

end Service
end BridgeNotifier
