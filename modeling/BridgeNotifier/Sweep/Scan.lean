import BridgeNotifier.Dispatch
import BridgeNotifier.Lock
import BridgeNotifier.Sweep.Setup
set_option autoImplicit false

namespace BridgeNotifier

def offerAll (d : Dispatcher) : List Notice → Program UInt64
  | [] => return 0
  | n :: ns => do
    let sent ← d.offer n
    let rest ← offerAll d ns
    return (if sent then 1 else 0) + rest

namespace Scan

variable (s : Scan)

/-- One page from an offset on. A page that is not full is the last. -/
def page (offset : UInt64) (summary : ScanSummary) : Routine ScanSummary := do
  let deposits ← Routine.records (.maturing s.network s.range s.pageSize offset)
  Routine.measure (.page s.task)
  let rows := UInt64.ofNat deposits.length
  let sent ← ExceptT.lift
    (offerAll s.dispatcher (deposits.map fun d => { deposit := d, status := s.status }))
  let summary : ScanSummary :=
    ⟨summary.pages + 1, summary.matched + rows, summary.dispatched + sent⟩
  if rows < s.pageSize.toUInt64 then return summary
  Routine.ofProgram (Program.loop (.scan s (offset + rows) summary))

def run : Routine ScanSummary :=
  if s.range.high < s.range.low then return ⟨0, 0, 0⟩
  else Routine.ofProgram (Program.loop (.scan s 0 ⟨0, 0, 0⟩))

end Scan

namespace Setup

variable (s : Setup)

/-- One sweep. The scanned blocks are recorded before the head, so that a failure in between only
leaves the head behind. -/
def sweepMaturity : Routine Outcome := do
  let ns := s.config.namespaceName
  let oldHead ← Checkpoint.get ns .head
  let newHead ← Routine.chain .head
  if newHead ≤ oldHead then return .noChange
  let depth ← ExceptT.lift (Program.request .depth)
  let lastScanned ← Checkpoint.get? ns .scanned
  let dispatched ←
    match matured? oldHead newHead depth lastScanned with
    | none => pure 0
    | some range => do
      let summary ← (s.scan .maturity s.config.maturity.network range .pendingAutoClaim).run
      let _ ← Checkpoint.advance ns .scanned range.high
      pure summary.dispatched
  let _ ← Checkpoint.advance ns .head newHead
  Routine.measure (.checkpoint .head newHead)
  return .advanced oldHead newHead dispatched

def estimator (r : Role) : Estimator :=
  ⟨r, s.config.namespaceName, (s.batchConfig r).window⟩

def recordDuration (r : Role) : Routine Unit := do
  let now ← ExceptT.lift (Program.request .sampleClock)
  match ← (s.estimator r).recordSample (now / 1000) with
  | .accepted average => Routine.measure (.average r average)
  | .rejected _ => Routine.measure (.averageRejected r)
  -- Seconds that come from milliseconds are too few for an overflow.
  | .filling _ | .overflow => return ()

/-- One sweep. The ceiling is recorded before the batch, so that a failure in between only leaves
the batch behind. -/
def sweepBatch (r : Role) : Routine Outcome := do
  let ns := s.config.namespaceName
  let latest ← Routine.chain r.latest
  let stored ← Checkpoint.get ns r.batch
  if latest ≤ stored then return .noChange
  let newCeiling ← Routine.chain (.lastBlock latest)
  let oldCeiling ← Checkpoint.get ns r.ceiling
  let dispatched ←
    if oldCeiling < newCeiling then do
      let range : BlockRange := ⟨oldCeiling + 1, newCeiling⟩
      let summary ← (s.scan (.batch r) (s.batchConfig r).network range r.status).run
      pure summary.dispatched
    else pure 0
  if ← Checkpoint.advance ns r.ceiling newCeiling then
    Routine.measure (.checkpoint r.ceiling newCeiling)
  let _ ← Checkpoint.advance ns r.batch latest
  Routine.measure (.checkpoint r.batch latest)
  s.recordDuration r
  return .advanced stored latest dispatched

end Setup
end BridgeNotifier
