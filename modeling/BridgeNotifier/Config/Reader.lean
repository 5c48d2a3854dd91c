import BridgeNotifier.Config.Form
import BridgeNotifier.Config.Settings
set_option autoImplicit false

namespace BridgeNotifier
open Form

def WindowConfig.ofForm? (f : Form) : Option WindowConfig := do
  let [capacity, low, high, default] ←
    f.fields? ["capacity", "min_secs", "max_secs", "default_secs"] | none
  return {
    capacity := ← required word64? capacity
    minSecs := ← required word64? low
    maxSecs := ← required word64? high
    defaultSecs := ← required word64? default }

def MaturityConfig.ofForm? (f : Form) : Option MaturityConfig := do
  let [interval, lockKey, network, confirmations] ←
    f.fields? ["interval_secs", "lock_key", "network_id", "confirmations"] | none
  let d : MaturityConfig := {}
  return {
    intervalSecs := ← orElse d.intervalSecs word64? interval
    lockKey := ← orElse d.lockKey Form.text? lockKey
    network := ← orElse d.network word32? network
    confirmations := ← orElse d.confirmations word64? confirmations }

def BatchConfig.ofForm? (f : Form) : Option BatchConfig := do
  let [interval, lockKey, network, window] ←
    f.fields? ["interval_secs", "lock_key", "network_id", "window"] | none
  return {
    intervalSecs := ← required word64? interval
    lockKey := ← required Form.text? lockKey
    network := ← required word32? network
    window := ← required WindowConfig.ofForm? window }

def FeedConfig.ofForm? (f : Form) : Option FeedConfig := do
  let [enabled, interval, depositKey, claimKey] ←
    f.fields? ["enabled", "interval_secs", "deposit_lock_key", "claim_lock_key"] | none
  let d : FeedConfig := {}
  return {
    enabled := ← orElse d.enabled flag? enabled
    intervalSecs := ← orElse d.intervalSecs word64? interval
    depositLockKey := ← orElse d.depositLockKey Form.text? depositKey
    claimLockKey := ← orElse d.claimLockKey Form.text? claimKey }

def ChainIdLists.ofForm? (f : Form) : Option ChainIdLists := do
  let [networks, chainIds, standard, inner] ←
    f.fields? ["networks", "chain_ids", "standard_chain_ids", "inner_chain_ids"] | none
  let d := ChainIdLists.default
  return {
    networks := ← orElse d.networks (list? word32?) networks
    chainIds := ← orElse d.chainIds (list? word64?) chainIds
    standardIds := ← orElse d.standardIds (list? word64?) standard
    innerIds := ← orElse d.innerIds (list? word64?) inner }

def EstimateConfig.ofForm? (f : Form) : Option EstimateConfig := do
  let [defaults, fallback] ← f.fields? ["default_minutes", "fallback_minutes"] | none
  let d := EstimateConfig.default
  return {
    defaults := ← orElse d.defaults (numbered? word32?) defaults
    fallback := ← orElse d.fallback word32? fallback }

def TransportConfig.ofForm? (f : Form) : Option TransportConfig := do
  let [endpoint, topic, pushKey, bizCode, timeout] ←
    f.fields? ["endpoint", "topic", "push_key", "biz_code", "timeout_secs"] | none
  let d := TransportConfig.empty
  return {
    endpoint := ← orElse d.endpoint Form.text? endpoint
    topic := ← orElse d.topic Form.text? topic
    pushKey := ← orElse d.pushKey Form.text? pushKey
    bizCode := ← orElse d.bizCode Form.text? bizCode
    timeoutSecs := ← orElse d.timeoutSecs word64? timeout }

def BatchMethods.ofForm? (f : Form) : Option BatchMethods := do
  let [committed, verified, byNumber] ←
    f.fields? ["committed_batch_method", "verified_batch_method", "batch_by_number_method"] | none
  let d : BatchMethods := {}
  return {
    committed := ← orElse d.committed Form.text? committed
    verified := ← orElse d.verified Form.text? verified
    byNumber := ← orElse d.byNumber Form.text? byNumber }

def Config.fieldNames : List String :=
  ["namespace", "rollup_id", "lock_ttl_secs", "page_size", "rpc_timeout_secs",
    "reload_interval_secs", "l1_sweep", "commit_sweep", "verify_sweep", "record_feed", "chain_ids",
    "estimate", "transport", "batch_rpc"]

def Config.ofForm? (f : Form) : Option Config := do
  let [namespaceName, rollupId, lockTtl, pageSize, rpcTimeout, reload, maturity, commit, verify,
    feed, chainIds, estimate, transport, methods] ← f.fields? Config.fieldNames | none
  let d : Config := {}
  return {
    namespaceName := ← orElse d.namespaceName Form.text? namespaceName
    rollupId := ← orElse d.rollupId word32? rollupId
    lockTtlSecs := ← orElse d.lockTtlSecs word64? lockTtl
    pageSize := ← orElse d.pageSize word32? pageSize
    rpcTimeoutSecs := ← orElse d.rpcTimeoutSecs word64? rpcTimeout
    reloadIntervalSecs := ← orElse d.reloadIntervalSecs word64? reload
    maturity := ← orElse d.maturity MaturityConfig.ofForm? maturity
    commit := ← orElse d.commit BatchConfig.ofForm? commit
    verify := ← orElse d.verify BatchConfig.ofForm? verify
    feed := ← orElse d.feed FeedConfig.ofForm? feed
    chainIds := ← orElse d.chainIds ChainIdLists.ofForm? chainIds
    estimate := ← orElse d.estimate EstimateConfig.ofForm? estimate
    transport := ← orElse d.transport TransportConfig.ofForm? transport
    methods := ← orElse d.methods BatchMethods.ofForm? methods }

end BridgeNotifier
