set_option autoImplicit false

namespace BridgeNotifier

inductive ErrorKind where
  | rpc
  | records
  | keyValue
  | transport
  | config
  | anomaly
  | internal
  deriving DecidableEq, Repr

namespace ErrorKind

def label : ErrorKind → String
  | .rpc => "rpc"
  | .records => "store"
  | .keyValue => "kv_store"
  | .transport => "transport"
  | .config => "config"
  | .anomaly => "data_anomaly"
  | .internal => "internal"

def heading : ErrorKind → String
  | .rpc => "RPC error: "
  | .records => "Record store error: "
  | .keyValue => "KV store error: "
  | .transport => "Transport error: "
  | .config => "Config error: "
  | .anomaly => "Data anomaly: "
  | .internal => "Internal error: "

/-- Failures of a remote party are expected to pass; all others are not. -/
def isTransient : ErrorKind → Bool
  | .rpc | .records | .keyValue | .transport => true
  | .config | .anomaly | .internal => false

def all : List ErrorKind :=
  [.rpc, .records, .keyValue, .transport, .config, .anomaly, .internal]

def ofLabel? (s : String) : Option ErrorKind :=
  all.find? fun k => k.label == s

theorem mem_all (k : ErrorKind) : k ∈ all := by
  cases k <;> decide

theorem ofLabel?_label (k : ErrorKind) : ofLabel? k.label = some k := by
  cases k <;> decide

end ErrorKind

structure Error where
  kind : ErrorKind
  detail : String
  deriving DecidableEq, Repr

namespace Error

def message (e : Error) : String :=
  e.kind.heading ++ e.detail

def isTransient (e : Error) : Bool :=
  e.kind.isTransient

/-- A cause with the contexts wrapped around it, innermost first, told outermost first. -/
def chained (root : String) (contexts : List String) : String :=
  ": ".intercalate (contexts.reverse ++ [root])

def ofChain (root : String) (contexts : List String) : Error :=
  ⟨.internal, chained root contexts⟩

def recordNotFound : Error :=
  ⟨.records, "Record not found"⟩

end Error
end BridgeNotifier
