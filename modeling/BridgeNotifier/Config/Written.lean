import BridgeNotifier.Config.Settings
import BridgeNotifier.Json.Value
set_option autoImplicit false

namespace BridgeNotifier
open Json

def Json.Value.word (n : UInt64) : Value := .nat n.toNat
def Json.Value.word32 (n : UInt32) : Value := .nat n.toNat

def WindowConfig.toJson (w : WindowConfig) : Value :=
  .object [("capacity", .word w.capacity), ("min_secs", .word w.minSecs),
    ("max_secs", .word w.maxSecs), ("default_secs", .word w.defaultSecs)]

def MaturityConfig.toJson (m : MaturityConfig) : Value :=
  .object [("interval_secs", .word m.intervalSecs), ("lock_key", .text m.lockKey),
    ("network_id", .word32 m.network), ("confirmations", .word m.confirmations)]

def BatchConfig.toJson (b : BatchConfig) : Value :=
  .object [("interval_secs", .word b.intervalSecs), ("lock_key", .text b.lockKey),
    ("network_id", .word32 b.network), ("window", b.window.toJson)]

def FeedConfig.toJson (f : FeedConfig) : Value :=
  .object [("enabled", .bool f.enabled), ("interval_secs", .word f.intervalSecs),
    ("deposit_lock_key", .text f.depositLockKey), ("claim_lock_key", .text f.claimLockKey)]

def ChainIdLists.toJson (c : ChainIdLists) : Value :=
  .object [("networks", .list (c.networks.map .word32)),
    ("chain_ids", .list (c.chainIds.map .word)),
    ("standard_chain_ids", .list (c.standardIds.map .word)),
    ("inner_chain_ids", .list (c.innerIds.map .word))]

/-- The entries that count: of several for one network the last. -/
def EstimateConfig.members : List (UInt32 × UInt32) → List (String × Value)
  | [] => []
  | (network, minutes) :: es =>
    if es.any fun e => e.1 == network then members es
    else (toString network.toNat, .word32 minutes) :: members es

def EstimateConfig.toJson (e : EstimateConfig) : Value :=
  .object [("default_minutes", .object (members e.defaults)),
    ("fallback_minutes", .word32 e.fallback)]

def TransportConfig.toJson (t : TransportConfig) : Value :=
  .object [("endpoint", .text t.endpoint), ("topic", .text t.topic), ("push_key", .text t.pushKey),
    ("biz_code", .text t.bizCode), ("timeout_secs", .word t.timeoutSecs)]

def BatchMethods.toJson (b : BatchMethods) : Value :=
  .object [("committed_batch_method", .text b.committed),
    ("verified_batch_method", .text b.verified), ("batch_by_number_method", .text b.byNumber)]

def Config.toJson (c : Config) : Value :=
  .object [
    ("namespace", .text c.namespaceName), ("rollup_id", .word32 c.rollupId),
    ("lock_ttl_secs", .word c.lockTtlSecs), ("page_size", .word32 c.pageSize),
    ("rpc_timeout_secs", .word c.rpcTimeoutSecs),
    ("reload_interval_secs", .word c.reloadIntervalSecs),
    ("l1_sweep", c.maturity.toJson), ("commit_sweep", c.commit.toJson),
    ("verify_sweep", c.verify.toJson), ("record_feed", c.feed.toJson),
    ("chain_ids", c.chainIds.toJson), ("estimate", c.estimate.toJson),
    ("transport", c.transport.toJson), ("batch_rpc", c.methods.toJson)]

end BridgeNotifier
