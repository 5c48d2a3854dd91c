import BridgeNotifier.Text.Numeral
set_option autoImplicit false

namespace BridgeNotifier.Json
open Text

inductive Value where
  | null
  | bool (b : Bool)
  | int (i : Int)
  | decimal (written : String)
  | text (s : String)
  | list (items : List Value)
  | object (members : List (String × Value))
  deriving Inhabited, Repr

namespace Value

def nat (n : Nat) : Value :=
  .int (Int.ofNat n)

/-- The value of the last member of the name, if the value is an object that has one. -/
def get? (name : String) : Value → Option Value
  | .object members => (members.reverse.find? fun m => m.1 == name).map Prod.snd
  | _ => none

def text? : Value → Option String
  | .text s => some s
  | _ => none

def nat? : Value → Option Nat
  | .int (.ofNat n) => some n
  | _ => none

def int? : Value → Option Int
  | .int i => some i
  | _ => none

def bool? : Value → Option Bool
  | .bool b => some b
  | _ => none

def list? : Value → Option (List Value)
  | .list vs => some vs
  | _ => none

def members? : Value → Option (List (String × Value))
  | .object ms => some ms
  | _ => none

def ofOption : Option Value → Value
  | none => .null
  | some v => v

end Value

def escaped (c : Char) : List Char :=
  if c = '"' then ['\\', '"']
  else if c = '\\' then ['\\', '\\']
  else if c = '\n' then ['\\', 'n']
  else if c = '\r' then ['\\', 'r']
  else if c = '\t' then ['\\', 't']
  else if c = '\x08' then ['\\', 'b']
  else if c = '\x0c' then ['\\', 'f']
  else if c.toNat < 0x20 then
    ['\\', 'u', '0', '0', Numeral.digit (c.toNat / 16), Numeral.digit (c.toNat % 16)]
  else [c]

def renderText (s : String) : List Char :=
  '"' :: s.toList.flatMap escaped ++ ['"']

def renderInt : Int → List Char
  | .ofNat n => Numeral.render 10 n
  | .negSucc n => '-' :: Numeral.render 10 (n + 1)

mutual

def Value.render : Value → List Char
  | .null => ['n', 'u', 'l', 'l']
  | .bool true => ['t', 'r', 'u', 'e']
  | .bool false => ['f', 'a', 'l', 's', 'e']
  | .int i => renderInt i
  | .decimal written => written.toList
  | .text s => renderText s
  | .list items => '[' :: renderItems items
  | .object members => '\x7b' :: renderMembers members

def renderItems : List Value → List Char
  | [] => [']']
  | [v] => v.render ++ [']']
  | v :: w :: vs => v.render ++ ',' :: renderItems (w :: vs)

def renderMembers : List (String × Value) → List Char
  | [] => ['\x7d']
  | [(name, v)] => renderText name ++ ':' :: (v.render ++ ['\x7d'])
  | (name, v) :: m :: ms => renderText name ++ ':' :: (v.render ++ ',' :: renderMembers (m :: ms))

end

def Value.toText (v : Value) : String :=
  String.ofList v.render

end BridgeNotifier.Json
