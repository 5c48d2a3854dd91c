import BridgeNotifier.Net.Address
set_option autoImplicit false

namespace BridgeNotifier.Net
open Text

structure Url where
  scheme : String
  host : Option String
  number : Option Nat
  path : String
  query : String
  deriving DecidableEq, Repr

namespace Url

inductive Problem where
  | relative
  | noHost
  | hostVersion6
  | hostVersion4
  | number
  | domain
  | character
  deriving DecidableEq, Repr

def Problem.text : Problem → String
  | .relative => "relative URL without a base"
  | .noHost => "empty host"
  | .hostVersion6 => "invalid IPv6 address"
  | .hostVersion4 => "invalid IPv4 address"
  | .number => "invalid port number"
  | .domain => "invalid international domain name"
  | .character => "invalid domain character"

def isTabOrLineEnd (c : Char) : Bool :=
  c == '\t' || c == '\n' || c == '\r'

/-- Controls and blanks around the text do not count, tabs and line ends nowhere. -/
def cleaned (s : String) : List Char :=
  let edge (c : Char) : Bool := c.toNat ≤ 0x20
  (((s.toList.dropWhile edge).reverse.dropWhile edge).reverse).filter fun c => !isTabOrLineEnd c

def isSchemePart (c : Char) : Bool :=
  c.isAlphanum || c == '+' || c == '-' || c == '.'

def scheme? (cs : List Char) : Option (String × List Char) :=
  match cs with
  | [] => none
  | c :: _ =>
    if !c.isAlpha then none
    else
      match cs.dropWhile isSchemePart with
      | ':' :: rest => some (String.ofList ((cs.takeWhile isSchemePart).map Char.toLower), rest)
      | _ => none

def isWeb (scheme : String) : Bool :=
  scheme == "http" || scheme == "https" || scheme == "ws" || scheme == "wss" || scheme == "ftp"

def endsAuthority (web : Bool) (c : Char) : Bool :=
  c == '/' || c == '?' || c == '#' || (web && c == '\\')

def afterLastAt (cs : List Char) : Option (List Char) :=
  if cs.contains '@' then some (cs.reverse.takeWhile (· ≠ '@')).reverse else none

def spanHost : Bool → List Char → List Char × List Char
  | _, [] => ([], [])
  | inside, c :: cs =>
    if c = ':' ∧ !inside then ([], c :: cs)
    else
      let (host, rest) := spanHost (if c = '[' then true else if c = ']' then false else inside) cs
      (c :: host, rest)

/-- The text with each escaped ASCII character in its place; other escapes stand for a mark. -/
def unescaped : List Char → List Char
  | '%' :: a :: b :: cs =>
    match Numeral.value? 16 [a, b] with
    | some n => (if n < 128 then Char.ofNat n else '\uFFFD') :: unescaped cs
    | none => '%' :: unescaped (a :: b :: cs)
  | c :: cs => c :: unescaped cs
  | [] => []

def isForbidden (c : Char) : Bool :=
  c.toNat ≤ 0x20 || c == '\x7f' || ['#', '%', '/', ':', '<', '>', '?', '@', '[', '\\', ']', '^', '|'].contains c

/-- A number of an address of version 4: decimal, octal after a zero, hexadecimal after `0x`. The
outer option tells whether it is one, the inner one whether it fits. -/
def looseNumber? (cs : List Char) : Option (Option Nat) :=
  let read (base : Nat) (digits : List Char) : Option (Option Nat) :=
    (Numeral.value? base digits).map fun n => if n < 0x100000000 then some n else none
  match cs with
  | [] => none
  | '0' :: 'x' :: ds | '0' :: 'X' :: ds => read 16 ds
  | '0' :: d :: ds => read 8 (d :: ds)
  | ds => read 10 ds

def labels (cs : List Char) : List (List Char) :=
  let ls := splitOn '.' cs
  if ls.length > 1 && ls.getLast? == some [] then ls.dropLast else ls

def endsInNumber (cs : List Char) : Bool :=
  match (labels cs).getLast? with
  | none | some [] => false
  | some l => l.all Char.isDigit || (looseNumber? l).isSome

def isLooseDotted (cs : List Char) : Bool :=
  let ls := labels cs
  match (ls.mapM fun l => (looseNumber? l).bind id) with
  | none => false
  | some ns =>
    match ns.reverse with
    | [] => false
    | last :: front =>
      ns.length ≤ 4 && front.all (· < 256) && last < 1 <<< (8 * (4 - front.length))

def checkBracketed (cs : List Char) : Except Problem Unit :=
  if cs.getLast? == some ']' && isColonSeparated cs.tail.dropLast then .ok ()
  else .error .hostVersion6

def checkWebHost (cs : List Char) : Except Problem Unit :=
  if cs.isEmpty then .error .noHost
  else if cs.head? == some '[' then checkBracketed cs
  else
    let name := unescaped cs
    if name.any isForbidden then .error .domain
    else if endsInNumber name && !isLooseDotted name then .error .hostVersion4
    else .ok ()

def checkFreeHost (cs : List Char) : Except Problem Unit :=
  if cs.head? == some '[' then checkBracketed cs
  else if cs.any fun c => c != '%' && c != '\x7f' &&
      (isForbidden c && (c.toNat = 0 || 0x20 ≤ c.toNat)) then .error .character
  else .ok ()

def number? (cs : List Char) : Except Problem (Option Nat) :=
  match cs with
  | [] => .ok none
  | ':' :: [] => .ok none
  | ':' :: ds =>
    match endpointNumber? ds with
    | some n => .ok (some n)
    | none => .error .number
  | _ => .error .number

def pathOf (cs : List Char) : String :=
  String.ofList (cs.takeWhile fun c => c != '?' && c != '#')

def queryOf (cs : List Char) : String :=
  String.ofList (((cs.takeWhile (· != '#')).dropWhile (· != '?')).drop 1)

def withAuthority (scheme : String) (cs : List Char) : Except Problem Url := do
  let web := isWeb scheme
  let authority := cs.takeWhile fun c => !endsAuthority web c
  let rest := cs.dropWhile fun c => !endsAuthority web c
  let named := (afterLastAt authority).getD authority
  if (afterLastAt authority).isSome && named.isEmpty && !rest.isEmpty &&
      authority.head? == some '@' then
    throw .noHost
  let (host, number) := spanHost false named
  if web then checkWebHost host else checkFreeHost host
  if host.isEmpty && !number.isEmpty then throw .noHost
  return ⟨scheme, if host.isEmpty then none else some (String.ofList host), ← number? number,
    pathOf rest, queryOf rest⟩

def parse (s : String) : Except Problem Url :=
  match scheme? (cleaned s) with
  | none => .error .relative
  | some (scheme, rest) =>
    if isWeb scheme then withAuthority scheme (rest.dropWhile fun c => c == '/' || c == '\\')
    else if scheme == "file" then .ok ⟨scheme, none, none, pathOf rest, queryOf rest⟩
    else
      match rest with
      | '/' :: '/' :: cs => withAuthority scheme cs
      | cs => .ok ⟨scheme, none, none, pathOf cs, queryOf cs⟩

def queryMember? (u : Url) (name : String) : Option String :=
  ((splitOn '&' u.query.toList).reverse.find? fun m =>
    String.ofList (m.takeWhile (· != '=')) == name).map fun m =>
      String.ofList ((m.dropWhile (· != '=')).drop 1)

end Url
end BridgeNotifier.Net
