import BridgeNotifier.Json.Value
import BridgeNotifier.Word
set_option autoImplicit false

/-!
# Forms

A configuration document as its fields are read from it, whatever notation it was written in. What
a single value may stand for depends on the notation, so an atom carries each of its readings.
-/
namespace BridgeNotifier

/-- A value without parts, with what it may be read as. -/
structure Atom where
  text? : Option String := none
  natural? : Option Nat := none
  flag? : Option Bool := none
  keyNumber? : Option Nat := none
  deriving DecidableEq, Repr

inductive Form where
  | atom (a : Atom)
  | blank
  /-- A list; `row` tells whether it may stand for a record, its fields in their order. -/
  | list (row : Bool) (items : List Form)
  /-- Entries in order; a key that is no atom has no reading at all. -/
  | record (entries : List (Option Atom × Form))
  deriving Repr

namespace Form

def text? : Form → Option String
  | .atom a => a.text?
  | .blank => some ""
  | _ => none

def natural? : Form → Option Nat
  | .atom a => a.natural?
  | _ => none

def flag? : Form → Option Bool
  | .atom a => a.flag?
  | _ => none

def word32? (f : Form) : Option UInt32 :=
  f.natural?.bind Word.word32?

def word64? (f : Form) : Option UInt64 :=
  f.natural?.bind Word.word64?

def list? {α : Type} (read : Form → Option α) : Form → Option (List α)
  | .blank => some []
  | .list _ items => items.mapM read
  | _ => none

def numbered? {α : Type} (read : Form → Option α) : Form → Option (List (UInt32 × α))
  | .blank => some []
  | .record entries => entries.mapM fun (key, f) => do
    let n ← (← key).keyNumber?
    return (← Word.word32? n, ← read f)
  | _ => none

def named? (entries : List (Option Atom × Form)) : Option (List (String × Form)) :=
  entries.mapM fun (key, f) => do
    return (← (← key).text?, f)

/-- What a record holds for each of the names, in their order. Other keys are passed over, a name
may occur once at most. A row gives its items to the names in order and may be short. -/
def fields? (names : List String) : Form → Option (List (Option Form))
  | .atom _ => none
  | .blank => some (names.map fun _ => none)
  | .list row items =>
    if row ∧ items.length ≤ names.length then
      some (items.map some ++ List.replicate (names.length - items.length) none)
    else none
  | .record entries => do
    let entries ← named? entries
    names.mapM fun name =>
      match entries.filter fun e => e.1 == name with
      | [] => some none
      | [(_, f)] => some (some f)
      | _ => none

def orElse {α : Type} (default : α) (read : Form → Option α) : Option Form → Option α
  | none => some default
  | some f => read f

def required {α : Type} (read : Form → Option α) (f : Option Form) : Option α :=
  f.bind read

end Form

/-- A key that is a number: the digits JSON itself would write for it. -/
def Atom.canonicalNumber? (s : String) : Option Nat :=
  let cs := s.toList
  if cs.all Char.isDigit ∧ cs ≠ [] ∧ (cs.length = 1 ∨ cs.head? ≠ some '0') then s.toNat? else none

def Atom.ofName (s : String) : Atom where
  text? := some s
  keyNumber? := Atom.canonicalNumber? s

mutual

def Form.ofJson : Json.Value → Form
  | .null => .atom {}
  | .bool b => .atom { flag? := some b }
  | .int (.ofNat n) => .atom { natural? := some n }
  | .int (.negSucc _) => .atom {}
  | .decimal _ => .atom {}
  | .text s => .atom { text? := some s }
  | .list items => .list true (Form.ofItems items)
  | .object members => .record (Form.ofMembers members)

def Form.ofItems : List Json.Value → List Form
  | [] => []
  | v :: vs => Form.ofJson v :: Form.ofItems vs

def Form.ofMembers : List (String × Json.Value) → List (Option Atom × Form)
  | [] => []
  | (name, v) :: ms => (some (Atom.ofName name), Form.ofJson v) :: Form.ofMembers ms

end
end BridgeNotifier
