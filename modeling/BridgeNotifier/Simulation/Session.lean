import BridgeNotifier.Simulation.Scheduler
set_option autoImplicit false

namespace BridgeNotifier.Simulation

inductive Command where
  | tick (t : Task)
  | begin (t : Task) (name : String)
  | join (name : String)
  | abort (name : String)
  /-- Put a task in service; without an interval, at its own. -/
  | start (t : Task) (interval : Option Interval)
  /-- Take a task out of service and wait for the tick under way. -/
  | cancel (t : Task)
  | advance (d : Interval)
  | clock (millis : UInt64)
  | head (height : UInt64)
  | batch (r : Role) (batch : UInt64) (lastBlock : Option UInt64)
  | chain (unavailable : Option Bool) (delay : Option Nat) (failure : Option (ChainQuestion × Error))
  | records (failing : Option Bool) (failAfter : Option Nat)
  | addDeposits (entries : List DepositEntry)
  | addClaims (entries : List ClaimEntry)
  | setReady (count : UInt32)
  | storeAvailable (available : Bool)
  | refuse (name : String)
  | set (name : String) (value : UInt64)
  | foreignLock (t : Task) (token : String) (ttl : Interval)
  | foreignRelease (t : Task) (token : String)
  | depth (n : UInt64)
  | chainIds (t : ChainIds)
  | transportFailing (failing : Bool)
  | scan (network : UInt32) (range : BlockRange) (status : Status)
  | dispatch (n : Notice)
  | awaitSent (count : Nat) (timeout : Interval)
  | nothing

inductive Answer where
  | none
  | flag (b : Bool)
  | failed (e : Error)
  | outcome (o : Outcome)
  | summary (s : ScanSummary)
  | brokenDown
  deriving Repr

structure Snapshot where
  ints : List (String × UInt64)
  lists : List (String × List UInt64)
  locked : List Task
  deriving DecidableEq, Repr

structure Report where
  answer : Answer
  instant : Nat
  sent : List Envelope
  calls : List RecordCall
  changed : Option Snapshot

structure Session where
  setup : Setup
  scheduler : Scheduler
  ticks : List (String × Nat)
  services : List (Task × Nat)
  shown : Snapshot

namespace Session

def key (s : Session) (name : String) : String :=
  storeKey s.setup.config.namespaceName name

def world (s : Session) : World := s.scheduler.world

def snapshot (s : Session) : Snapshot :=
  let m := s.world.store.memory
  { ints := (Watermark.all.map Watermark.name ++ Role.all.map Role.averageName).filterMap
      fun n => (m.ints (s.key n)).map fun x => (s.key n, x)
    lists := (Role.all.map fun r => (s.key r.windowName, m.lists (s.key r.windowName))).filter
      fun e => !e.2.isEmpty
    locked := Task.all.filter fun t => m.isLocked s.world.now (s.setup.lockKey t) }

def initial (setup : Setup) (w : World) : Session :=
  let s : Session := ⟨setup, .initial w, [], [], ⟨[], [], []⟩⟩
  { s with shown := s.snapshot }

def inWorld (s : Session) (f : World → World) : Session :=
  { s with scheduler := { s.scheduler with world := f s.scheduler.world } }

def inChain (s : Session) (f : Chain → Chain) : Session :=
  s.inWorld fun w => { w with chain := f w.chain }

def inTable (s : Session) (f : RecordTable → RecordTable) : Session :=
  s.inWorld fun w => { w with records := { w.records with table := f w.records.table } }

def inStore (s : Session) (f : FaultyStore → FaultyStore) : Session :=
  s.inWorld fun w => { w with store := f w.store }

def answerOf {α : Type} (f : α → Answer) : Except Error α → Answer
  | .ok a => f a
  | .error e => .failed e

def storeCall (s : Session) (c : StoreCall) (f : c.Answer → Answer) : Answer × Session :=
  if s.world.breaksOff (.store c) then (.brokenDown, s)
  else
    let r := s.world.reply (.store c)
    (answerOf f r.1, s.inWorld fun _ => r.2)

def endingAnswer : Option Ending → Answer
  | some (.tick r) => answerOf .outcome r
  | some (.scan r) => answerOf .summary r
  | some .brokenDown => .brokenDown
  | _ => .none

def foreground (s : Session) (spawn : Scheduler → Scheduler) : Answer × Session :=
  let id := s.scheduler.nextId
  let sch := (Scheduler.settle Scheduler.fuel (spawn s.scheduler)).awaitEnd id Scheduler.fuel
  (endingAnswer (sch.ending? id), { s with scheduler := sch })

def scanLabel : String := "Scan"

def perform (s : Session) : Command → Answer × Session
  | .tick t => s.foreground fun sch => sch.spawnTick (s.setup.tick t)
  | .begin t name =>
    (.none, { s with
      scheduler := s.scheduler.spawnTick (s.setup.tick t)
      ticks := (name, s.scheduler.nextId) :: s.ticks })
  | .join name =>
    match s.ticks.lookup name with
    | none => (.none, s)
    | some id =>
      let sch := s.scheduler.awaitEnd id Scheduler.fuel
      (endingAnswer (sch.ending? id), { s with scheduler := sch })
  | .abort name =>
    match s.ticks.lookup name with
    | none => (.none, s)
    | some id => (.none, { s with scheduler := s.scheduler.abort id })
  | .start t interval =>
    let stopped := s.scheduler.stopped.filter (· ≠ Stop.loop t.name)
    let sch := { s.scheduler with stopped := stopped }
    (.none, { s with
      scheduler := sch.spawnQuiet (s.setup.periodic t (interval.getD (s.setup.interval t)))
      services := (t, sch.nextId) :: s.services })
  | .cancel t =>
    match s.services.lookup t with
    | none => (.flag false, s)
    | some id =>
      let sch := Scheduler.settle Scheduler.fuel (s.scheduler.stop (.loop t.name))
      (.flag true, { s with scheduler := sch.awaitEnd id Scheduler.fuel })
  | .advance d =>
    (.none, { s with
      scheduler := Scheduler.advanceTo (s.world.now + d.nanos) Scheduler.fuel s.scheduler })
  | .clock millis => (.none, s.inWorld fun w => { w with sampleClock := millis })
  | .head height => (.none, s.inChain fun c => { c with head := height })
  | .batch r batch lastBlock =>
    (.none, s.inChain fun c =>
      let c := { c with lastBlocks := (lastBlock.map fun n => (batch, n)).toList ++ c.lastBlocks }
      match r with
      | .commit => { c with committed := batch }
      | .verify => { c with verified := batch })
  | .chain unavailable delay failure =>
    (.none, s.inChain fun c => { c with
      unavailable := unavailable.getD c.unavailable
      delay := delay.getD c.delay
      failures := c.failures ++ failure.toList })
  | .records failing failAfter =>
    (.none, s.inWorld fun w => { w with records := { w.records with
      failing := failing.getD w.records.failing
      failAfter := failAfter.or w.records.failAfter } })
  | .addDeposits entries => (.none, s.inTable fun t => entries.foldl RecordTable.addDeposit t)
  | .addClaims entries => (.none, s.inTable fun t => entries.foldl RecordTable.addClaim t)
  | .setReady count => (.none, s.inTable fun t => t.markReady count)
  | .storeAvailable available => (.none, s.inStore fun f => { f with unavailable := !available })
  | .refuse name => (.none, s.inStore fun f => { f with refused := s.key name :: f.refused })
  | .set name value => s.storeCall (.setInt (s.key name) value) fun _ => .none
  | .foreignLock t token ttl => s.storeCall (.tryLock (s.setup.lockKey t) token ttl) .flag
  | .foreignRelease t token => s.storeCall (.releaseLock (s.setup.lockKey t) token) .flag
  | .depth n =>
    let (changed, l) := s.world.depth.publish (· == ·) n
    (.flag changed, s.inWorld fun w => { w with depth := l })
  | .chainIds t =>
    let (changed, l) := s.world.chainIds.publish ChainIds.same t
    (.flag changed, s.inWorld fun w => { w with chainIds := l })
  | .transportFailing failing =>
    (.none, s.inWorld fun w => { w with transportFailing := failing })
  | .scan network range status =>
    let scan := { s.setup.scan .maturity network range status with task := scanLabel }
    s.foreground fun sch => sch.spawnScan scan.run
  | .dispatch n =>
    let sch := Scheduler.settle Scheduler.fuel
      (s.scheduler.spawnQuiet ((s.setup.dispatcher.offer n).bind fun _ => .done ()))
    (.flag (s.scheduler.nextId + 1 < sch.nextId), { s with scheduler := sch })
  | .awaitSent count timeout =>
    let (r, sch) := s.scheduler.awaitSent count (s.world.now + timeout.nanos) Scheduler.fuel
    (.flag r, { s with scheduler := sch })
  | .nothing => (.none, s)

def run (s : Session) (c : Command) : Report × Session :=
  let (answer, after) := s.perform c
  let after := { after with scheduler := Scheduler.settle Scheduler.fuel after.scheduler }
  let shown := after.snapshot
  let newest {α : Type} (old new : List α) : List α := (new.take (new.length - old.length)).reverse
  ({ answer := answer
     instant := after.world.now
     sent := newest s.world.sent after.world.sent
     calls := newest s.world.records.calls after.world.records.calls
     changed := if shown = s.shown then none else some shown },
    { after with shown := shown })

end Session
end BridgeNotifier.Simulation
