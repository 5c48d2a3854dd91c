import BridgeNotifier.Simulation.World
import BridgeNotifier.Sweep.Tick
set_option autoImplicit false

/-!
# Processes on one clock

Programs run side by side in virtual time. A process runs until it waits; what is ready runs in the
order in which it became ready. Time moves only from timer to timer.
-/
namespace BridgeNotifier.Simulation

inductive Ending where
  | quiet
  | brokenDown
  | tick (result : Except Error Outcome)
  | scan (result : Except Error ScanSummary)

structure Process where
  id : Nat
  program : Program Ending
  leases : List Lease
  /-- It has waited for the reply that it asks for next. -/
  waited : Bool

structure Timer where
  fire : Nat
  stop : Option Stop
  onTime : Process
  onStop : Process

structure Scheduler where
  world : World
  ready : List Process
  timers : List Timer
  stopped : List Stop
  ended : List (Nat × Ending)
  nextId : Nat

namespace Scheduler

def initial (w : World) : Scheduler := ⟨w, [], [], [], [], 0⟩

def spawn (s : Scheduler) (p : Program Ending) : Scheduler :=
  { s with ready := s.ready ++ [⟨s.nextId, p, [], false⟩], nextId := s.nextId + 1 }

def spawnQuiet (s : Scheduler) (p : Program Unit) : Scheduler :=
  s.spawn (p.bind fun _ => .done .quiet)

def spawnTick (s : Scheduler) (p : Routine Outcome) : Scheduler :=
  s.spawn (p.run.bind fun r => .done (.tick r))

def spawnScan (s : Scheduler) (p : Routine ScanSummary) : Scheduler :=
  s.spawn (p.run.bind fun r => .done (.scan r))

def stop (s : Scheduler) (stop : Stop) : Scheduler :=
  let (hit, rest) := s.timers.partition fun t => t.stop = some stop
  { s with
    timers := rest, ready := s.ready ++ hit.map Timer.onStop, stopped := stop :: s.stopped }

def setTimer (s : Scheduler) (t : Timer) : Scheduler :=
  { s with timers := s.timers ++ [t] }

def delayOf (s : Scheduler) (p : Process) : Request → Nat
  | .chain _ => if p.waited then 0 else s.world.chain.delay * 1000000
  | _ => 0

def runProcess : Nat → Process → Scheduler → Scheduler
  | 0, _, s => s
  | fuel + 1, p, s =>
    match p.program with
    | .done e => { s with ended := (p.id, e) :: s.ended }
    | .call l k => runProcess fuel { p with program := l.body.bind k } s
    | .ask r k =>
      let delay := s.delayOf p r
      if 0 < delay then
        let p := { p with waited := true }
        s.setTimer ⟨s.world.now + delay, none, p, p⟩
      else
        let p := { p with waited := false }
        match r, k with
        | .pause instant stop, k =>
          if s.stopped.contains stop then runProcess fuel { p with program := k false } s
          else
            let fire := Interval.nextMilli instant
            if fire ≤ s.world.now then runProcess fuel { p with program := k true } s
            else s.setTimer ⟨fire, some stop, { p with program := k true },
              { p with program := k false }⟩
        | .launch d n, k => runProcess fuel { p with program := k () } (s.spawnQuiet (d.deliver n))
        | .hold l, k =>
          runProcess fuel { p with program := k (), leases := l :: p.leases }
            (s.spawnQuiet l.keep)
        | .letGo l, k =>
          runProcess fuel { p with program := k (), leases := p.leases.erase l }
            (s.stop (.lease l))
        | r, k =>
          if s.world.breaksOff r then { s with ended := (p.id, .brokenDown) :: s.ended }
          else
            let (x, w) := s.world.reply r
            runProcess fuel { p with program := k x } { s with world := w }

/-- The bound on the requests of one process between two waits, and on the steps of a run. -/
def fuel : Nat := 100000000

/-- Run what is ready, and what becomes ready by it, until everything waits. -/
def settle : Nat → Scheduler → Scheduler
  | 0, s => s
  | n + 1, s =>
    match s.ready with
    | [] => s
    | p :: rest => settle n (runProcess fuel p { s with ready := rest })

def nextFire? (s : Scheduler) : Option Nat :=
  (s.timers.map Timer.fire).min?

def fireAt (s : Scheduler) (instant : Nat) : Scheduler :=
  let (due, rest) := s.timers.partition fun t => t.fire ≤ instant
  { s with
    world := { s.world with now := max s.world.now instant }
    timers := rest
    ready := s.ready ++ due.map Timer.onTime }

def advanceTo (instant : Nat) : Nat → Scheduler → Scheduler
  | 0, s => s
  | n + 1, s =>
    match s.nextFire? with
    | some t =>
      if t ≤ instant then advanceTo instant n (settle fuel (s.fireAt t))
      else { s with world := { s.world with now := max s.world.now instant } }
    | none => { s with world := { s.world with now := max s.world.now instant } }

def ending? (s : Scheduler) (id : Nat) : Option Ending :=
  s.ended.lookup id

def awaitEnd (id : Nat) : Nat → Scheduler → Scheduler
  | 0, s => s
  | n + 1, s =>
    if (s.ending? id).isSome then s
    else
      match s.nextFire? with
      | some t => awaitEnd id n (settle fuel (s.fireAt t))
      | none => s

/-- Look every five milliseconds whether so many messages were sent, until an instant has come. -/
def awaitSent (count deadline : Nat) : Nat → Scheduler → Bool × Scheduler
  | 0, s => (false, s)
  | n + 1, s =>
    if count ≤ s.world.sent.length then (true, s)
    else if deadline ≤ s.world.now then (false, s)
    else awaitSent count deadline n (advanceTo (s.world.now + 5000000) fuel s)

/-- Drop a process where it waits. The leases it held are given up in the background. -/
def abort (s : Scheduler) (id : Nat) : Scheduler :=
  let (hit, rest) := s.timers.partition fun t => t.onTime.id = id
  let leases := hit.flatMap fun t => t.onTime.leases
  leases.foldl (fun s l => (s.stop (.lease l)).spawnQuiet l.giveUp)
    { s with timers := rest, ended := (id, .quiet) :: s.ended }

end Scheduler

/-- The result of a program and the world after it, if it ends within so many steps and does not break
down. -/
def runAlone {α : Type} : Nat → Program α → World → Option (α × World)
  | 0, _, _ => none
  | _ + 1, .done a, w => some (a, w)
  | n + 1, .ask r k, w =>
    if w.breaksOff r then none else runAlone n (k (w.reply r).1) (w.reply r).2
  | n + 1, .call l k, w => runAlone n (l.body.bind k) w

theorem runAlone_mono {α : Type} {n m : Nat} {p : Program α} {w : World} {r : α × World}
    (h : runAlone n p w = some r) (hnm : n ≤ m) : runAlone m p w = some r := by
  induction n generalizing m p w with
  | zero => simp [runAlone] at h
  | succ n ih =>
    obtain ⟨m, rfl⟩ : ∃ k, m = k + 1 := ⟨m - 1, by omega⟩
    cases p with
    | done a => simpa [runAlone] using h
    | ask q k =>
      rw [runAlone] at h ⊢
      split at h
      · cases h
      · rw [if_neg ‹_›]
        exact ih h (by omega)
    | call l k =>
      rw [runAlone] at h ⊢
      exact ih h (by omega)

end BridgeNotifier.Simulation
