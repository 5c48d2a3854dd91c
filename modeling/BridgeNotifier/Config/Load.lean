import BridgeNotifier.Config.Placeholder
import BridgeNotifier.Config.Reader
import BridgeNotifier.Text.Characters
set_option autoImplicit false

namespace BridgeNotifier.Config

inductive LoadError where
  | unreadable (path : String)
  | malformed
  | invalid (problem : Problem)
  deriving DecidableEq, Repr

namespace LoadError

def text : LoadError → String
  | .unreadable path => "Failed to read push config file: " ++ Text.quotedPath path
  | .malformed => "Failed to parse push config YAML"
  | .invalid p => p.toError.message

def toError (e : LoadError) : Error :=
  ⟨.internal, e.text⟩

end LoadError

def validated (c : Config) : Except LoadError Config :=
  match c.validate with
  | .error p => .error (.invalid p)
  | .ok () => .ok c

def ofJson? (v : Json.Value) : Except LoadError Config :=
  match Config.ofForm? (.ofJson v) with
  | none => .error .malformed
  | some c => validated c

variable (yaml : String → Option Form) (env : Placeholder.Environment)

/-- Settings from a text in YAML with placeholders. What the text is as a document is up to the
reader of the notation. -/
def ofYaml (text : String) : Except LoadError Config :=
  let text := Placeholder.substitute env text
  if Text.isBlankText text then validated {}
  else
    match (yaml text).bind Config.ofForm? with
    | none => .error .malformed
    | some c => validated c

def ofFile (path : String) (bytes : Option ByteArray) : Except LoadError Config :=
  match bytes.bind String.fromUTF8? with
  | none => .error (.unreadable path)
  | some text => ofYaml yaml env text

end BridgeNotifier.Config
