import BridgeNotifier.Config.Form
import BridgeNotifier.Yaml.Node
set_option autoImplicit false

namespace BridgeNotifier
open Text Yaml

namespace YamlScalar

def based? (base : Nat) (digits : List Char) : Option Nat :=
  if digits.isEmpty then none else Numeral.value? base digits

/-- Several decimal digits of which the first is a zero are no number. -/
def decimal? (digits : List Char) : Option Nat :=
  if digits.length ≠ 1 ∧ digits.head? = some '0' then none else based? 10 digits

def unsigned? : List Char → Option Nat
  | '0' :: 'x' :: digits => based? 16 digits
  | '0' :: 'o' :: digits => based? 8 digits
  | '0' :: 'b' :: digits => based? 2 digits
  | digits => decimal? digits

def natural? : List Char → Option Nat
  | '+' :: cs => unsigned? cs
  | cs => unsigned? cs

def flag? (s : String) : Option Bool :=
  if s = "true" ∨ s = "True" ∨ s = "TRUE" then some true
  else if s = "false" ∨ s = "False" ∨ s = "FALSE" then some false
  else none

/-- A scalar that may stand for a number or a flag: a plain one, or a literal block with the tag. -/
def isOpen (tagName : String) (style : Style) (tag : Option String) : Bool :=
  style = .plain || (style = .literal && tag = some ("tag:yaml.org,2002:" ++ tagName))

def atom (style : Style) (tag : Option String) (text : String) : Atom :=
  let n := if isOpen "int" style tag then natural? text.toList else none
  { text? := some text
    natural? := n
    flag? := if isOpen "bool" style tag then flag? text else none
    keyNumber? := n }

end YamlScalar

/-- A node and its parts down to a depth; what lies deeper has no reading. Aliases are followed. -/
def Form.ofNode (d : Document) : Nat → Node → Form
  | 0, _ => .atom {}
  | depth + 1, n =>
    match d.resolve n with
    | none => .atom {}
    | some (.alias _) => .atom {}
    | some (.scalar style tag text) =>
      if style = .plain ∧ text = "" then .blank else .atom (YamlScalar.atom style tag text)
    | some (.sequence items) => .list false (items.map (Form.ofNode d depth))
    | some (.mapping entries) =>
      .record (entries.map fun e =>
        let key :=
          match d.resolve e.1 with
          | some (.scalar style tag text) => some (YamlScalar.atom style tag text)
          | _ => none
        (key, Form.ofNode d depth e.2))

/-- The depth of the settings: a section, a window in it, and a field of the window. -/
def Form.settingsDepth : Nat := 5

def Form.ofYaml? (text : String) : Option Form :=
  (Yaml.document? text.toList).map fun d => Form.ofNode d Form.settingsDepth d.root

end BridgeNotifier
