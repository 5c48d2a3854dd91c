set_option autoImplicit false

namespace BridgeNotifier

inductive Status where
  | created
  | pendingAutoClaim
  | pendingVerification
  | verified
  | claimed
  deriving DecidableEq, Repr

namespace Status

def all : List Status :=
  [.created, .pendingAutoClaim, .pendingVerification, .verified, .claimed]

def code : Status → UInt32
  | .created => 0
  | .pendingAutoClaim => 1
  | .pendingVerification => 2
  | .verified => 3
  | .claimed => 4

def name : Status → String
  | .created => "created"
  | .pendingAutoClaim => "pending_auto_claim"
  | .pendingVerification => "pending_verification"
  | .verified => "verified"
  | .claimed => "claimed"

def ofName? (s : String) : Option Status :=
  all.find? fun st => st.name == s

theorem mem_all (s : Status) : s ∈ all := by
  cases s <;> decide

theorem ofName?_name (s : Status) : ofName? s.name = some s := by
  cases s <;> decide

theorem code_injective {s t : Status} (h : s.code = t.code) : s = t := by
  cases s <;> cases t <;> first | rfl | exact absurd h (by decide)

end Status

inductive Leaf where
  | asset
  | message
  deriving DecidableEq, Repr

namespace Leaf

/-- Zero is an asset; every other code is a message. -/
def ofCode (code : UInt8) : Leaf :=
  if code = 0 then .asset else .message

def code : Leaf → UInt8
  | .asset => 0
  | .message => 1

def isAsset : Leaf → Bool
  | .asset => true
  | .message => false

theorem ofCode_code (l : Leaf) : ofCode l.code = l := by
  cases l <;> rfl

theorem isAsset_ofCode (code : UInt8) : (ofCode code).isAsset = true ↔ code = 0 := by
  unfold ofCode
  split <;> simp_all [isAsset]

end Leaf

def mainNetwork : UInt32 := 0

structure Deposit where
  network : UInt32
  destinationNetwork : UInt32
  destinationAddress : String
  count : UInt32
  leaf : Leaf
  token : String
  /-- A decimal number, which may exceed 64 bits. -/
  amount : String
  block : UInt64
  txHash : String
  createdMillis : UInt64
  deriving DecidableEq, Repr

namespace Deposit

def isAsset (d : Deposit) : Bool :=
  d.leaf.isAsset

def fromMain (d : Deposit) : Bool :=
  d.network == mainNetwork

end Deposit

structure Claim where
  depositCount : UInt32
  originNetwork : UInt32
  txHash : String
  claimedMillis : UInt64
  deriving DecidableEq, Repr

end BridgeNotifier
