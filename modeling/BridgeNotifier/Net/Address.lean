import BridgeNotifier.Text.Numeral
set_option autoImplicit false

namespace BridgeNotifier.Net
open Text

def splitOn (separator : Char) : List Char → List (List Char)
  | [] => [[]]
  | c :: cs =>
    if c = separator then [] :: splitOn separator cs
    else
      match splitOn separator cs with
      | [] => [[c]]
      | p :: ps => (c :: p) :: ps

def octet? (cs : List Char) : Option Nat :=
  if cs.isEmpty || cs.length > 3 || (cs.length > 1 && cs.head? == some '0') then none
  else (Numeral.value? 10 cs).filter (· < 256)

def isDotted (cs : List Char) : Bool :=
  let parts := splitOn '.' cs
  parts.length == 4 && parts.all fun p => (octet? p).isSome

def isGroup (cs : List Char) : Bool :=
  !cs.isEmpty && cs.length ≤ 4 && (Numeral.value? 16 cs).isSome

/-- How many of the eight groups a run of groups takes; a dotted end takes two. -/
def groupCount? (last : Bool) : List (List Char) → Option Nat
  | [] => some 0
  | [p] =>
    if isGroup p then some 1 else if last && isDotted p then some 2 else none
  | p :: ps => if isGroup p then (groupCount? last ps).map (· + 1) else none

def splitGap? : List Char → Option (List Char × List Char)
  | ':' :: ':' :: cs => some ([], cs)
  | c :: cs => (splitGap? cs).map fun (before, after) => (c :: before, after)
  | [] => none

def groups (cs : List Char) : List (List Char) :=
  if cs.isEmpty then [] else splitOn ':' cs

/-- Eight groups, or fewer around one gap that stands for zeros. -/
def isColonSeparated (cs : List Char) : Bool :=
  match splitGap? cs with
  | none => groupCount? true (groups cs) == some 8
  | some (before, after) =>
    match groupCount? false (groups before), groupCount? true (groups after) with
    | some a, some b => a + b < 8
    | _, _ => false

def endpointNumber? (cs : List Char) : Option Nat :=
  if cs.isEmpty then none else (Numeral.value? 10 cs).filter (· < 65536)

structure SocketAddress where
  host : String
  number : Nat
  deriving DecidableEq, Repr

namespace SocketAddress

def ofText? (s : String) : Option SocketAddress :=
  let cs := s.toList
  let number := (cs.reverse.takeWhile (· ≠ ':')).reverse
  let host := (cs.reverse.dropWhile (· ≠ ':')).reverse.dropLast
  match host with
  | '[' :: inner =>
    if inner.getLast? == some ']' && isColonSeparated inner.dropLast then
      (endpointNumber? number).map fun n => ⟨String.ofList host, n⟩
    else none
  | _ =>
    if isDotted host then (endpointNumber? number).map fun n => ⟨String.ofList host, n⟩ else none

end SocketAddress
end BridgeNotifier.Net
