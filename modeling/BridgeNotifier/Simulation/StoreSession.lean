import BridgeNotifier.Simulation.Scheduler
set_option autoImplicit false

namespace BridgeNotifier.Simulation

inductive StoreCommand where
  | call (c : StoreCall)
  | isLocked (key : String)
  | list (key : String)
  | writes
  | available (b : Bool)
  | refuse (key : String)
  | advance (d : Interval)
  | keyOf (name : String)
  | checkpoint (w : Watermark)
  | checkpoint? (w : Watermark)
  | seed (w : Watermark) (value : UInt64)
  | raise (w : Watermark) (value : UInt64)
  | sample (secs : UInt64)
  | pushSample (secs : UInt64)
  | windowLength
  | popOldest
  | storedAverage
  | average
  | window
  | acquire (key : String) (ttl : Interval) (name : String)
  | release (name : String)
  | drop (name : String)

inductive StoreAnswer where
  | none
  | flag (b : Bool)
  | number (n : UInt64)
  | numbers (ns : List UInt64)
  | text (s : String)
  | count (n : Nat)
  | sample (o : SampleOutcome)
  | acquired (l : Lease)
  | held (key : String)
  | failed (e : Error)
  | brokenDown

structure StoreSession where
  scheduler : Scheduler
  estimator : Estimator
  leases : List (String × Lease)

namespace StoreSession

def initial (e : Estimator) : StoreSession :=
  ⟨.initial (World.initial 0 .empty .empty), e, []⟩

def world (s : StoreSession) : World := s.scheduler.world

def inWorld (s : StoreSession) (f : World → World) : StoreSession :=
  { s with scheduler := { s.scheduler with world := f s.scheduler.world } }

def runProgram {α : Type} (s : StoreSession) (f : α → StoreAnswer) (p : Program α) :
    StoreAnswer × StoreSession :=
  match runAlone Scheduler.fuel p s.world with
  | some (a, w) => (f a, s.inWorld fun _ => w)
  | none => (.brokenDown, s)

def answerOf {α : Type} (f : α → StoreAnswer) : Except Error α → StoreAnswer
  | .ok a => f a
  | .error e => .failed e

def routine {α : Type} (s : StoreSession) (f : α → StoreAnswer) (p : Routine α) :
    StoreAnswer × StoreSession :=
  s.runProgram (answerOf f) p.run

def callAnswer : (c : StoreCall) → c.Answer → StoreAnswer
  | .tryLock .., b | .extendLock .., b | .releaseLock .., b => .flag b
  | .getInt _, some n => .number n
  | .getInt _, none => .none
  | .setInt .., _ => .none
  | .push .., n | .popOldest _, n | .length _, n => .number n

def maybeNumber : Option UInt64 → StoreAnswer
  | some n => .number n
  | none => .none

def letGo (s : StoreSession) (l : Lease) : StoreSession :=
  { s with scheduler := s.scheduler.stop (.lease l) }

def perform (s : StoreSession) : StoreCommand → StoreAnswer × StoreSession
  | .call c => s.routine (callAnswer c) (.store c)
  | .isLocked key => (.flag (s.world.store.memory.isLocked s.world.now key), s)
  | .list key => (.numbers (s.world.store.memory.lists key), s)
  | .writes => (.count s.world.store.memory.writes, s)
  | .available b =>
    (.none, s.inWorld fun w => { w with store := { w.store with unavailable := !b } })
  | .refuse key =>
    (.none, s.inWorld fun w => { w with store := { w.store with refused := key :: w.store.refused } })
  | .advance d =>
    (.none, { s with
      scheduler := Scheduler.advanceTo (s.world.now + d.nanos) Scheduler.fuel s.scheduler })
  | .keyOf name => (.text (storeKey s.estimator.namespaceName name), s)
  | .checkpoint w => s.routine .number (Checkpoint.get s.estimator.namespaceName w)
  | .checkpoint? w => s.routine maybeNumber (Checkpoint.get? s.estimator.namespaceName w)
  | .seed w value => s.routine .flag (Checkpoint.seed s.estimator.namespaceName w value)
  | .raise w value => s.routine .flag (Checkpoint.advance s.estimator.namespaceName w value)
  | .sample secs =>
    let answer : SampleOutcome → StoreAnswer
      | .overflow => .brokenDown
      | o => .sample o
    s.routine answer (s.estimator.recordSample secs)
  | .pushSample secs => s.routine .number (s.estimator.pushSample secs)
  | .windowLength => s.routine .number s.estimator.windowLength
  | .popOldest => s.routine .number s.estimator.popOldest
  | .storedAverage => s.routine maybeNumber s.estimator.storedAverage
  | .average => s.runProgram .number s.estimator.averageOrDefault
  | .window =>
    let w := s.estimator.window
    (.numbers [w.capacity, w.minSecs, w.maxSecs, w.defaultSecs], s)
  | .acquire key ttl name =>
    match runAlone Scheduler.fuel (Lock.acquire key ttl).run s.world with
    | some (.ok (some l), w) =>
      let s := s.inWorld fun _ => w
      (.acquired l, { s with
        scheduler := s.scheduler.spawnQuiet l.keep, leases := (name, l) :: s.leases })
    | some (.ok none, w) => (.held key, s.inWorld fun _ => w)
    | some (.error e, w) => (.failed e, s.inWorld fun _ => w)
    | none => (.brokenDown, s)
  | .release name =>
    match s.leases.lookup name with
    | none => (.none, s)
    | some l => (s.letGo l).runProgram (fun _ => .none) l.giveUp
  | .drop name =>
    match s.leases.lookup name with
    | none => (.none, s)
    | some l =>
      let s := s.letGo l
      (.none, { s with scheduler := s.scheduler.spawnQuiet l.giveUp })

def run (s : StoreSession) (c : StoreCommand) : StoreAnswer × StoreSession :=
  let (answer, s) := s.perform c
  (answer, { s with scheduler := Scheduler.settle Scheduler.fuel s.scheduler })

end StoreSession
end BridgeNotifier.Simulation
