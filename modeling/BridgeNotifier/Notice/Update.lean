import BridgeNotifier.ChainIds
import BridgeNotifier.Json.Value
import BridgeNotifier.Record.Deposit
import BridgeNotifier.Record.GlobalIndex
import BridgeNotifier.Word
set_option autoImplicit false

/-!
# Transfer updates

What consumers are told about one transfer. Fields that are not known are left out of the written
form.
-/
namespace BridgeNotifier

structure TransferUpdate where
  fromChain : UInt32
  toChain : UInt32
  fromChainId : Option UInt64 := none
  toChainId : Option UInt64 := none
  bridgeToken : Option String := none
  tokenAmount : Option String := none
  estimateTime : Option UInt32 := none
  time : Option UInt64 := none
  txHash : String
  index : UInt64
  status : UInt32
  blockNumber : Option UInt64 := none
  destAddr : String
  globalIndex : Option String := none
  claimTxHash : Option String := none
  claimTime : Option UInt64 := none
  deriving DecidableEq, Repr

namespace TransferUpdate
open Json

def member? {α : Type} (name : String) (write : α → Value) : Option α → List (String × Value)
  | none => []
  | some a => [(name, write a)]

def word64 (n : UInt64) : Value := .nat n.toNat
def word32 (n : UInt32) : Value := .nat n.toNat

def members (u : TransferUpdate) : List (String × Value) :=
  [("fromChain", word32 u.fromChain), ("toChain", word32 u.toChain)] ++
  member? "fromChainId" word64 u.fromChainId ++
  member? "toChainId" word64 u.toChainId ++
  member? "bridgeToken" .text u.bridgeToken ++
  member? "tokenAmount" .text u.tokenAmount ++
  member? "estimateTime" word32 u.estimateTime ++
  member? "time" word64 u.time ++
  [("txHash", .text u.txHash), ("index", word64 u.index), ("status", word32 u.status)] ++
  member? "blockNumber" word64 u.blockNumber ++
  [("destAddr", .text u.destAddr)] ++
  member? "globalIndex" .text u.globalIndex ++
  member? "claimTxHash" .text u.claimTxHash ++
  member? "claimTime" word64 u.claimTime

def toJson (u : TransferUpdate) : Value :=
  .object u.members

end TransferUpdate

structure Notice where
  deposit : Deposit
  status : Status
  claim : Option Claim := none
  deriving DecidableEq, Repr

namespace Notice

def wantsEstimate (n : Notice) : Bool :=
  n.status == .created

/-- The update of a notice; `minutes` is the estimate of a deposit that was just made. -/
def update (n : Notice) (chains : ChainIds) (rollupId : UInt32) (minutes : UInt32) :
    TransferUpdate :=
  let d := n.deposit
  let index := globalIndex d.fromMain (if rollupId = 0 then 0 else rollupId - 1) d.count
  let base : TransferUpdate := {
    fromChain := d.network
    toChain := d.destinationNetwork
    fromChainId := chains.external? d.network
    toChainId := chains.external? d.destinationNetwork
    txHash := d.txHash
    index := d.count.toUInt64
    status := n.status.code
    destAddr := d.destinationAddress
    globalIndex := some (Text.Numeral.decimal index) }
  match n.status with
  | .created =>
    { base with
      bridgeToken := some d.token
      tokenAmount := some d.amount
      time := some d.createdMillis
      blockNumber := some d.block
      estimateTime := some minutes }
  | .claimed =>
    { base with
      claimTxHash := n.claim.map Claim.txHash
      claimTime := n.claim.map Claim.claimedMillis }
  | _ => base

end Notice

structure Envelope where
  bizCode : String
  walletAddress : String
  requestId : String
  pushContent : String
  time : UInt64
  deriving DecidableEq, Repr

namespace Envelope
open Json

def ofUpdate (bizCode : String) (u : TransferUpdate) (requestId : String) (nowMillis : UInt64) :
    Envelope where
  bizCode := bizCode
  walletAddress := u.destAddr
  requestId := requestId
  pushContent := (Value.list [u.toJson]).toText
  time := nowMillis

def toJson (e : Envelope) : Value :=
  .object [
    ("bizCode", .text e.bizCode),
    ("walletAddress", .text e.walletAddress),
    ("requestId", .text e.requestId),
    ("pushContent", .text e.pushContent),
    ("time", .nat e.time.toNat)]

def toText (e : Envelope) : String :=
  e.toJson.toText

end Envelope
end BridgeNotifier
