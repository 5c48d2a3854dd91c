import BridgeNotifier.Error
import BridgeNotifier.Interval
import BridgeNotifier.Record.Deposit
import BridgeNotifier.Watermark
set_option autoImplicit false

namespace BridgeNotifier

inductive StoreCall where
  | tryLock (key token : String) (ttl : Interval)
  /-- Start the lease of a key again, if the token still holds it. -/
  | extendLock (key token : String) (ttl : Interval)
  | releaseLock (key token : String)
  | getInt (key : String)
  | setInt (key : String) (value : UInt64)
  | push (key : String) (timestamp : UInt64)
  | popOldest (key : String)
  | length (key : String)
  deriving DecidableEq, Repr

namespace StoreCall

abbrev Answer : StoreCall → Type
  | tryLock .. | extendLock .. | releaseLock .. => Bool
  | getInt _ => Option UInt64
  | setInt .. => Unit
  | push .. | popOldest _ | length _ => UInt64

def key : StoreCall → String
  | tryLock k _ _ | extendLock k _ _ | releaseLock k _ => k
  | getInt k | setInt k _ | push k _ | popOldest k | length k => k

end StoreCall

inductive ChainCall where
  | head
  | committed
  | verified
  | lastBlock (batch : UInt64)
  deriving DecidableEq, Repr

def ChainCall.emptyBatch (batch : UInt64) : Error :=
  ⟨.anomaly, "batch " ++ toString batch.toNat ++ " has no blocks"⟩

inductive RecordCall where
  /-- Deposits of a network in a range of blocks that are not ready to be claimed, in id order:
  `limit` of them after the first `offset`. -/
  | maturing (network : UInt32) (range : BlockRange) (limit : UInt32) (offset : UInt64)
  | depositsAfter (id : UInt64) (limit : UInt32)
  | claimsAfter (id : UInt64) (limit : UInt32)
  | deposit (network count : UInt32)
  /-- The largest deposit id, zero for an empty table. -/
  | latestDepositId
  | latestClaimId
  deriving DecidableEq, Repr

namespace RecordCall

abbrev Answer : RecordCall → Type
  | maturing .. => List Deposit
  | depositsAfter .. => List (UInt64 × Deposit)
  | claimsAfter .. => List (UInt64 × Claim)
  | deposit .. => Option Deposit
  | latestDepositId | latestClaimId => UInt64

end RecordCall

inductive NoticeResult where
  | sent
  | failed
  | skipped
  deriving DecidableEq, Repr

def NoticeResult.label : NoticeResult → String
  | .sent => "sent"
  | .failed => "failed"
  | .skipped => "skipped"

inductive Measurement where
  | tickEnded (task outcome : String)
  | tickFailed (task : String) (kind : ErrorKind)
  | page (task : String)
  | checkpoint (watermark : Watermark) (value : UInt64)
  | average (role : Role) (secs : UInt64)
  | averageRejected (role : Role)
  | notice (status : Status) (result : NoticeResult)
  deriving DecidableEq, Repr

end BridgeNotifier
