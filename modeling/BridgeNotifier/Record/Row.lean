import BridgeNotifier.Record.Deposit
set_option autoImplicit false

namespace BridgeNotifier

structure DepositRow where
  id : Int64
  leafType : Int16
  network : Int32
  originNetwork : Int32
  originAddress : String
  amount : String
  destinationNetwork : Int32
  destinationAddress : String
  block : Int64
  depositCount : Int64
  txHash : String
  readyForClaim : Bool
  timeMillis : Int64
  deriving DecidableEq, Repr

structure ClaimRow where
  id : Int64
  network : Int32
  index : Int64
  originNetwork : Int32
  originAddress : String
  amount : String
  destinationAddress : String
  block : Int64
  txHash : String
  timeMillis : Int64
  deriving DecidableEq, Repr

namespace DepositRow

/-- The low 32 bits of the deposit count; a wider count wraps. -/
def count (row : DepositRow) : UInt32 :=
  UInt32.ofNat row.depositCount.toNatClampNeg

/-- The leaf code clamped to a byte, so that negative codes are assets and large ones messages. -/
def leaf (row : DepositRow) : Leaf :=
  Leaf.ofCode (UInt8.ofNat (min row.leafType.toNatClampNeg 255))

def toDeposit (row : DepositRow) : Deposit where
  network := UInt32.ofNat row.network.toNatClampNeg
  destinationNetwork := UInt32.ofNat row.destinationNetwork.toNatClampNeg
  destinationAddress := row.destinationAddress
  count := row.count
  leaf := row.leaf
  token := row.originAddress
  amount := row.amount
  block := UInt64.ofNat row.block.toNatClampNeg
  txHash := row.txHash
  createdMillis := UInt64.ofNat row.timeMillis.toNatClampNeg

def feedId (row : DepositRow) : UInt64 :=
  UInt64.ofNat row.id.toNatClampNeg

end DepositRow

namespace ClaimRow

/-- The deposit was made on the other side of the bridge than the claim: one rollup faces the
settlement chain. -/
def originSide (row : ClaimRow) : UInt32 :=
  if 0 < row.network.toInt then 0 else 1

def count (row : ClaimRow) : UInt32 :=
  UInt32.ofNat (min row.index.toNatClampNeg 0xFFFFFFFF)

def toClaim (row : ClaimRow) : Claim where
  depositCount := row.count
  originNetwork := row.originSide
  txHash := row.txHash
  claimedMillis := UInt64.ofNat row.timeMillis.toNatClampNeg

def feedId (row : ClaimRow) : UInt64 :=
  UInt64.ofNat row.id.toNatClampNeg

end ClaimRow
end BridgeNotifier
