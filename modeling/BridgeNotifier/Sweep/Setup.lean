import BridgeNotifier.Program
set_option autoImplicit false

namespace BridgeNotifier

def Watermark.key (namespaceName : String) (w : Watermark) : String :=
  storeKey namespaceName w.name

namespace Checkpoint

variable (namespaceName : String)

def get? (w : Watermark) : Routine (Option UInt64) :=
  .store (.getInt (w.key namespaceName))

def get (w : Watermark) : Routine UInt64 := do
  return (← get? namespaceName w).getD 0

/-- Write a watermark that was never written. Tells whether it was. -/
def seed (w : Watermark) (value : UInt64) : Routine Bool := do
  if (← get? namespaceName w).isSome then return false
  Routine.store (.setInt (w.key namespaceName) value)
  return true

/-- Move a watermark forward. A smaller value is refused, the same one is not written again. -/
def advance (w : Watermark) (value : UInt64) : Routine Bool := do
  let current ← get namespaceName w
  if value < current then return false
  if value = current then return true
  Routine.store (.setInt (w.key namespaceName) value)
  return true

end Checkpoint

namespace Task

def all : List Task :=
  [.maturity, .batch .commit, .batch .verify, .feed .deposits, .feed .claims]

def name : Task → String
  | .maturity => "L1Confirmation"
  | .batch .commit => "CommittedBatch"
  | .batch .verify => "VerifiedBatch"
  | .feed f => f.name

theorem mem_all (t : Task) : t ∈ all := by
  rcases t with _ | (_ | _) | (_ | _) <;> decide

end Task

def Role.status : Role → Status
  | .commit => .pendingVerification
  | .verify => .verified

def Role.latest : Role → ChainCall
  | .commit => .committed
  | .verify => .verified

namespace Setup

variable (s : Setup)

def batchConfig : Role → BatchConfig
  | .commit => s.config.commit
  | .verify => s.config.verify

def lockName : Task → String
  | .maturity => s.config.maturity.lockKey
  | .batch r => (s.batchConfig r).lockKey
  | .feed .deposits => s.config.feed.depositLockKey
  | .feed .claims => s.config.feed.claimLockKey

def lockKey (t : Task) : String :=
  storeKey s.config.namespaceName (s.lockName t)

def interval : Task → Interval
  | .maturity => .ofSecs s.config.maturity.intervalSecs
  | .batch r => .ofSecs (s.batchConfig r).intervalSecs
  | .feed _ => .ofSecs s.config.feed.intervalSecs

/-- A page holds one row at least. -/
def pageSize : UInt32 := max s.config.pageSize 1

def dispatcher : Dispatcher where
  enabled := s.transport
  bizCode := s.config.transport.bizCode
  rollupId := s.config.rollupId
  estimate := s.config.estimate
  namespaceName := s.config.namespaceName
  window := s.config.commit.window

def scan (t : Task) (network : UInt32) (range : BlockRange) (status : Status) : Scan where
  task := t.name
  network := network
  range := range
  status := status
  pageSize := s.pageSize
  dispatcher := s.dispatcher

end Setup
end BridgeNotifier
