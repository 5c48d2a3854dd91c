import BridgeNotifier.Program
set_option autoImplicit false

namespace BridgeNotifier

inductive SampleOutcome where
  | filling (length : UInt64)
  | accepted (average : UInt64)
  | rejected (average : UInt64)
  /-- There is no average, as its sum does not fit into a word. The caller breaks down. -/
  | overflow
  deriving DecidableEq, Repr

structure Estimator where
  role : Role
  namespaceName : String
  window : WindowConfig
  deriving DecidableEq, Repr

namespace Estimator

variable (e : Estimator)

def windowKey : String := storeKey e.namespaceName e.role.windowName
def averageKey : String := storeKey e.namespaceName e.role.averageName

def pushSample (secs : UInt64) : Routine UInt64 :=
  .store (.push e.windowKey secs)

def popOldest : Routine UInt64 :=
  .store (.popOldest e.windowKey)

def windowLength : Routine UInt64 :=
  .store (.length e.windowKey)

/-- Put a sample into the window. Once the window overflows, its oldest sample is dropped and the
average over the remaining intervals is judged. -/
def recordSample (secs : UInt64) : Routine SampleOutcome := do
  let length ← e.pushSample secs
  if length ≤ e.window.capacity then return .filling length
  let oldest ← e.popOldest
  match averageInterval secs oldest (length - 1) with
  | none => return .overflow
  | some average =>
    if !e.window.accepts average then return .rejected average
    Routine.store (.setInt e.averageKey average)
    return .accepted average

/-- The last accepted average; zero counts as none. -/
def storedAverage : Routine (Option UInt64) := do
  return (← Routine.store (.getInt e.averageKey)).filter fun v => 0 < v

def averageOrDefault : Program UInt64 := do
  match ← e.storedAverage.run with
  | .ok (some v) => return v
  | _ => return e.window.defaultSecs

end Estimator

namespace Dispatcher

variable (d : Dispatcher)

def commitEstimator : Estimator :=
  ⟨.commit, d.namespaceName, d.window⟩

/-- Offer a notice. Answers whether a send was started: there must be a transport, and the transfer
must carry an asset. -/
def offer (n : Notice) : Program Bool :=
  if !d.enabled then return false
  else if !n.deposit.isAsset then do
    Program.request (.measure (.notice n.status .skipped))
    return false
  else do
    Program.request (.launch d n)
    return true

def minutes (deposit : Deposit) (nowMillis : UInt64) : Program (Option UInt32) :=
  if deposit.fromMain then return some (d.estimate.minutesFor deposit.network)
  else do
    return d.estimate.minutes deposit (← d.commitEstimator.averageOrDefault) nowMillis

def update (n : Notice) : Program (Option TransferUpdate) := do
  let chains ← Program.request .chainIds
  if n.wantsEstimate then
    let now ← Program.request .millis
    return (← d.minutes n.deposit now).map (n.update chains d.rollupId)
  else
    return some (n.update chains d.rollupId 0)

def hand (n : Notice) (u : TransferUpdate) : Program Unit := do
  let id ← Program.request .requestId
  let now ← Program.request .millis
  let result ← Program.request (.send (.ofUpdate d.bizCode u id now))
  Program.request (.measure (.notice n.status (if result.isOk then .sent else .failed)))

/-- Hand the update of a notice to the transport. Without an estimate that it wants, the send breaks
down before that, and nobody hears of it. -/
def deliver (n : Notice) : Program Unit := do
  match ← d.update n with
  | some u => d.hand n u
  | none => return ()

end Dispatcher
end BridgeNotifier
