import BridgeNotifier.Chain.Client
import BridgeNotifier.CommandLine.Arguments
import BridgeNotifier.Config.Load
import BridgeNotifier.Program
import BridgeNotifier.Records.Statement
import BridgeNotifier.Store.Remote
set_option autoImplicit false

namespace BridgeNotifier

/-- What the program finds around it when it starts. -/
structure Host where
  environment : String → Option String
  yaml : String → Option Form
  file : String → Option ByteArray
  storeAnswers : Bool
  databaseAnswers : Bool

inductive Start where
  | described
  | misused
  | failed (lines : List String)
  | running (setup : Setup) (chain : ChainClient)

namespace Start

def lines (message : String) (cause : Option String) : List String :=
  ("Error: " ++ message) ::
    match cause with
    | none => []
    | some c => ["", "Caused by:", "    " ++ c]

def loadCause (file : Option ByteArray) : Config.LoadError → Option String
  | .unreadable _ =>
    some (if file.isNone then "No such file or directory (os error 2)"
      else "stream did not contain valid UTF-8")
  | _ => none

def loadConfig (host : Host) (path : Option String) : Except (List String) Config :=
  match path with
  | none => .ok {}
  | some p =>
    match Config.ofFile host.yaml host.environment p (host.file p) with
    | .ok c => .ok c
    | .error e => .error (lines e.text (loadCause (host.file p) e))

def openStore (host : Host) (url : Option String) : Except (List String) Unit :=
  match url with
  | none => .ok ()
  | some u =>
    if (RemoteStore.checkUrl u).toOption.isSome && host.storeAnswers then .ok ()
    else .error (lines "Failed to connect to Redis" (some (RemoteStore.connectSilent u).message))

def migrate (host : Host) (wanted : Bool) : Except (List String) Unit :=
  if !wanted || host.databaseAnswers then .ok ()
  else .error (lines "Failed to run database migrations" (some Migration.noDatabase))

def nodes (urls : List String) (bound : Interval) : Except (List String) Failover :=
  match Failover.ofUrls urls { FailoverPolicy.default with attemptTimeout := bound } with
  | .ok f => .ok f
  | .error e => .error (lines e.message none)

def steps (host : Host) (a : Arguments) : Except (List String) (Setup × ChainClient) := do
  let config ← loadConfig host a.config
  openStore host a.store
  migrate host a.migrate
  let main ← nodes a.mainNodes config.rpcTimeout
  let rollup ← nodes a.rollupNodes config.rpcTimeout
  match ChainIds.ofLists config.chainIds with
  | .error p => throw (lines p.toError.message none)
  | .ok _ =>
    return (⟨config, config.transport.isConfigured⟩, ⟨main, rollup, config.methods⟩)

def run (host : Host) (args : List String) : Start :=
  match Arguments.read host.environment args with
  | .error .description => .described
  | .error .misuse => .misused
  | .ok a =>
    match steps host a with
    | .ok (setup, chain) => .running setup chain
    | .error ls => .failed ls

def exitCode : Start → UInt32
  | .described | .running .. => 0
  | .failed _ => 1
  | .misused => 2

end Start
end BridgeNotifier
