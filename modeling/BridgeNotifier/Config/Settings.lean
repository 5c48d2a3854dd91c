import BridgeNotifier.ChainIds
import BridgeNotifier.Estimate
import BridgeNotifier.Interval
import BridgeNotifier.Text.Characters
set_option autoImplicit false

namespace BridgeNotifier

structure MaturityConfig where
  intervalSecs : UInt64 := 5
  lockKey : String := "bridge_l1_block_num_lock"
  network : UInt32 := 0
  confirmations : UInt64 := 64
  deriving DecidableEq, Repr

structure BatchConfig where
  intervalSecs : UInt64
  lockKey : String
  network : UInt32
  window : WindowConfig
  deriving DecidableEq, Repr

namespace BatchConfig

def commitDefault : BatchConfig :=
  ⟨2, "sync_l1_committed_batch_lock", 1, .commitDefault⟩

def verifyDefault : BatchConfig :=
  ⟨10, "sync_l1_verified_batch_lock", 1, .verifyDefault⟩

end BatchConfig

structure FeedConfig where
  enabled : Bool := true
  intervalSecs : UInt64 := 5
  depositLockKey : String := "bridge_push_deposit_feed_lock"
  claimLockKey : String := "bridge_push_claim_feed_lock"
  deriving DecidableEq, Repr

def ChainIdLists.default : ChainIdLists :=
  ⟨[0, 1], [1, 196], [], []⟩

def EstimateConfig.default : EstimateConfig :=
  ⟨[(0, 15)], 60⟩

structure TransportConfig where
  endpoint : String
  topic : String
  pushKey : String
  bizCode : String
  timeoutSecs : UInt64
  deriving DecidableEq, Repr

namespace TransportConfig

def absent : TransportConfig := ⟨"", "", "", "", 0⟩

def empty : TransportConfig := ⟨"", "", "", "BridgeOrder", 5⟩

def isConfigured (t : TransportConfig) : Bool :=
  !Text.isBlankText t.endpoint

def sendTimeoutSecs (t : TransportConfig) : UInt64 :=
  max t.timeoutSecs 1

end TransportConfig

structure BatchMethods where
  committed : String := "zkevm_virtualBatchNumber"
  verified : String := "zkevm_verifiedBatchNumber"
  byNumber : String := "zkevm_getBatchByNumber"
  deriving DecidableEq, Repr

structure Config where
  namespaceName : String := ""
  rollupId : UInt32 := 1
  lockTtlSecs : UInt64 := 10
  pageSize : UInt32 := 100
  rpcTimeoutSecs : UInt64 := 10
  /-- How often the live values are read again; zero is never. -/
  reloadIntervalSecs : UInt64 := 30
  maturity : MaturityConfig := {}
  commit : BatchConfig := .commitDefault
  verify : BatchConfig := .verifyDefault
  feed : FeedConfig := {}
  chainIds : ChainIdLists := .default
  estimate : EstimateConfig := .default
  transport : TransportConfig := .absent
  methods : BatchMethods := {}
  deriving DecidableEq, Repr

namespace Config

inductive Problem where
  | mustBePositive (field : String)
  | missing (field : String)
  | feedLockKeys
  | crossedBounds (title : String)
  | sharedLockKey (key : String)
  | chainIds (problem : ChainIds.Problem)
  deriving DecidableEq, Repr

namespace Problem

def text : Problem → String
  | .mustBePositive field => field ++ " must be > 0"
  | .missing field => field ++ " is empty"
  | .feedLockKeys => "record_feed lock keys must be set"
  | .crossedBounds title => title ++ ".window.min_secs exceeds max_secs"
  | .sharedLockKey key => "lock key " ++ key ++ " is shared by two sweep tasks"
  | .chainIds p => p.text

def toError (p : Problem) : Error :=
  ⟨.config, p.text⟩

end Problem

def positive (field : String) (n : UInt64) : Except Problem Unit :=
  if n = 0 then .error (.mustBePositive field) else .ok ()

def present (field : String) (s : String) : Except Problem Unit :=
  if s = "" then .error (.missing field) else .ok ()

def checkMaturity (m : MaturityConfig) : Except Problem Unit := do
  positive "l1_sweep.interval_secs" m.intervalSecs
  present "l1_sweep.lock_key" m.lockKey

def checkBatch (title : String) (b : BatchConfig) : Except Problem Unit := do
  positive (title ++ ".interval_secs") b.intervalSecs
  present (title ++ ".lock_key") b.lockKey
  positive (title ++ ".window.capacity") b.window.capacity
  if b.window.maxSecs < b.window.minSecs then throw (.crossedBounds title)

def checkFeed (f : FeedConfig) : Except Problem Unit := do
  positive "record_feed.interval_secs" f.intervalSecs
  if f.depositLockKey = "" ∨ f.claimLockKey = "" then throw .feedLockKeys

/-- The lock keys, in the order in which a shared one is looked for. -/
def lockKeys (c : Config) : List String :=
  [c.maturity.lockKey, c.commit.lockKey, c.verify.lockKey, c.feed.depositLockKey,
    c.feed.claimLockKey]

def firstShared : List String → Option String
  | [] => none
  | k :: ks => if ks.contains k then some k else firstShared ks

def validate (c : Config) : Except Problem Unit := do
  positive "page_size" c.pageSize.toUInt64
  positive "lock_ttl_secs" c.lockTtlSecs
  positive "rpc_timeout_secs" c.rpcTimeoutSecs
  checkMaturity c.maturity
  checkBatch "commit_sweep" c.commit
  checkBatch "verify_sweep" c.verify
  checkFeed c.feed
  if let some key := firstShared c.lockKeys then throw (.sharedLockKey key)
  match ChainIds.ofLists c.chainIds with
  | .error p => throw (.chainIds p)
  | .ok _ => return ()

def lockTtl (c : Config) : Interval := .ofSecs c.lockTtlSecs
def rpcTimeout (c : Config) : Interval := .ofSecs c.rpcTimeoutSecs

end Config
end BridgeNotifier
