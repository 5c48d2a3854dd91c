import BridgeNotifier.CommandLine.Start
import BridgeNotifier.Config.Document
set_option autoImplicit false

open BridgeNotifier

def readFile? (path : String) : IO (Option ByteArray) := do
  try
    return some (← IO.FS.readBinFile path)
  catch _ => return none

def lookUp (names : List String) : IO (List (String × String)) :=
  names.filterMapM fun n => do
    return (← IO.getEnv n).map fun v => (n, v)

def main (args : List String) : IO UInt32 := do
  let flags ← lookUp (Flag.all.filterMap Flag.environmentName?)
  let path :=
    match Arguments.read (fun n => flags.lookup n) args with
    | .ok a => a.config
    | .error _ => none
  let bytes ← match path with
    | some p => readFile? p
    | none => pure none
  let text := (bytes.bind String.fromUTF8?).getD ""
  let named ← lookUp (Placeholder.names text.toList)
  let host : Host := {
    environment := fun n => (flags.lookup n).or (named.lookup n)
    yaml := Form.ofYaml?
    file := fun _ => bytes
    storeAnswers := false
    databaseAnswers := false }
  let start := Start.run host args
  match start with
  | .failed lines => lines.forM fun l => IO.eprintln l
  | .misused => IO.eprintln "error: the arguments cannot be used"
  | .described => IO.println "Tells consumers about transfers over a bridge."
  | .running .. => discard (← IO.getStdin).readToEnd
  return start.exitCode
