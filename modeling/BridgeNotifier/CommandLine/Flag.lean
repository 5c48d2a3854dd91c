set_option autoImplicit false

namespace BridgeNotifier

inductive Flag where
  | config
  | database
  | store
  | mainNodes
  | rollupNodes
  | metrics
  | migrate
  | poolSize
  | poolTimeout
  deriving DecidableEq, Repr

namespace Flag

def all : List Flag :=
  [.config, .database, .store, .mainNodes, .rollupNodes, .metrics, .migrate, .poolSize,
    .poolTimeout]

def name : Flag → String
  | .config => "config"
  | .database => "database-url"
  | .store => "redis-url"
  | .mainNodes => "l1-rpc-url"
  | .rollupNodes => "l2-rpc-url"
  | .metrics => "metrics-address"
  | .migrate => "run-migrations"
  | .poolSize => "db-connection-pool-size"
  | .poolTimeout => "db-connection-timeout-ms"

def ofName? (s : String) : Option Flag :=
  all.find? fun f => f.name == s

def environmentName? : Flag → Option String
  | .config => some "BRIDGE_PUSH_CONFIG"
  | .database => some "DATABASE_URL"
  | .store => some "REDIS_URL"
  | .mainNodes => some "L1_RPC_URL"
  | .rollupNodes => some "L2_RPC_URL"
  | .metrics => some "METRICS_ADDRESS"
  | .migrate => some "RUN_MIGRATIONS"
  | .poolSize | .poolTimeout => none

def takesValue (f : Flag) : Bool := f != .migrate

def mayRepeat : Flag → Bool
  | .mainNodes | .rollupNodes => true
  | _ => false

theorem mem_all (f : Flag) : f ∈ all := by
  cases f <;> decide

theorem ofName?_name (f : Flag) : ofName? f.name = some f := by
  cases f <;> decide

end Flag
end BridgeNotifier
