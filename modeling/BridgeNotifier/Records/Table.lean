import BridgeNotifier.Calls
set_option autoImplicit false

namespace BridgeNotifier

structure DepositEntry where
  id : UInt64
  deposit : Deposit
  readyForClaim : Bool
  deriving DecidableEq, Repr

structure ClaimEntry where
  id : UInt64
  claim : Claim
  deriving DecidableEq, Repr

structure RecordTable where
  deposits : List DepositEntry
  claims : List ClaimEntry
  deriving DecidableEq, Repr

namespace RecordTable

def empty : RecordTable := ⟨[], []⟩

def insertBy {α : Type} (id : α → UInt64) (a : α) : List α → List α
  | [] => [a]
  | b :: bs => if id a < id b then a :: b :: bs else b :: insertBy id a bs

def addDeposit (t : RecordTable) (e : DepositEntry) : RecordTable :=
  { t with deposits := insertBy DepositEntry.id e t.deposits }

def addClaim (t : RecordTable) (e : ClaimEntry) : RecordTable :=
  { t with claims := insertBy ClaimEntry.id e t.claims }

def markReady (t : RecordTable) (count : UInt32) : RecordTable :=
  { t with deposits := t.deposits.map fun e =>
      if e.deposit.count = count then { e with readyForClaim := true } else e }

/-- A deposit that a scan of a network and a range is looking for. -/
def matures (network : UInt32) (range : BlockRange) (e : DepositEntry) : Bool :=
  e.deposit.network == network && range.low ≤ e.deposit.block && e.deposit.block ≤ range.high &&
    !e.readyForClaim

def largest (ids : List UInt64) : UInt64 :=
  ids.foldl max 0

def answer (t : RecordTable) : (c : RecordCall) → c.Answer
  | .maturing network range limit offset =>
    (((t.deposits.filter (matures network range)).drop offset.toNat).take limit.toNat).map
      DepositEntry.deposit
  | .depositsAfter id limit =>
    ((t.deposits.filter fun e => id < e.id).take limit.toNat).map fun e => (e.id, e.deposit)
  | .claimsAfter id limit =>
    ((t.claims.filter fun e => id < e.id).take limit.toNat).map fun e => (e.id, e.claim)
  | .deposit network count =>
    (t.deposits.find? fun e => e.deposit.network == network && e.deposit.count == count).map
      DepositEntry.deposit
  | .latestDepositId => largest (t.deposits.map DepositEntry.id)
  | .latestClaimId => largest (t.claims.map ClaimEntry.id)

end RecordTable
end BridgeNotifier
