import BridgeNotifier.Sweep.Feed
import BridgeNotifier.Sweep.Scan
set_option autoImplicit false

namespace BridgeNotifier

def Task.report (t : Task) : Except Error Outcome → List Measurement
  | .ok o => [.tickEnded t.name o.label]
  | .error e => [.tickEnded t.name "error", .tickFailed t.name e.kind]

namespace Setup

variable (s : Setup)

def sweep : Task → Routine Outcome
  | .maturity => s.sweepMaturity
  | .batch r => s.sweepBatch r
  | .feed f => s.sweepFeed f

def tick (t : Task) : Routine Outcome :=
  Lock.guarded (s.lockKey t) s.config.lockTtl (s.sweep t)

def countedTick (t : Task) : Program Unit := do
  (t.report (← (s.tick t).run)).forM fun m => Program.request (.measure m)

/-- When the round after the one due at `deadline` is due, if that one begins at `now`. A round
that begins more than five milliseconds late shifts the following ones. -/
def nextRound (interval : Interval) (deadline now : Nat) : Nat :=
  if deadline + 5000000 < now then now + interval.nanos else deadline + interval.nanos

def periodicRound (t : Task) (interval : Interval) (deadline : Nat) : Program Unit := do
  if ← Program.request (.pause deadline (.loop t.name)) then
    let now ← Program.request .instant
    s.countedTick t
    Program.loop (.periodic s t interval (nextRound interval deadline now))

def periodic (t : Task) (interval : Interval) : Program Unit := do
  let now ← Program.request .instant
  Program.loop (.periodic s t interval now)

end Setup

def Loop.body : (l : Loop) → Program l.Result
  | .scan s offset summary => (s.page offset summary).run
  | .feed s f last dispatched => (s.feedRound f last dispatched).run
  | .renewal l deadline => l.renew deadline
  | .periodic s t interval deadline => s.periodicRound t interval deadline

end BridgeNotifier
