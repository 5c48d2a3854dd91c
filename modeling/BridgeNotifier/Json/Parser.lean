import BridgeNotifier.Json.Value
set_option autoImplicit false

namespace BridgeNotifier.Json
open Text

def isSpace (c : Char) : Bool :=
  c == ' ' || c == '\n' || c == '\t' || c == '\r'

def skipSpaces (cs : List Char) : List Char :=
  cs.dropWhile isSpace

def expect? : List Char → List Char → Option (List Char)
  | [], cs => some cs
  | _ :: _, [] => none
  | x :: xs, c :: cs => if x = c then expect? xs cs else none

def codeUnit? : List Char → Option (Nat × List Char)
  | a :: b :: c :: d :: cs => (Numeral.value? 16 [a, b, c, d]).map (·, cs)
  | _ => none

def joinSurrogates (high low : Nat) : Char :=
  Char.ofNat (0x10000 + (high - 0xD800) * 0x400 + (low - 0xDC00))

/-- The character that an escape stands for, after its backslash. A lone surrogate is refused. -/
def escape? : List Char → Option (Char × List Char)
  | '"' :: cs => some ('"', cs)
  | '\\' :: cs => some ('\\', cs)
  | '/' :: cs => some ('/', cs)
  | 'b' :: cs => some ('\x08', cs)
  | 'f' :: cs => some ('\x0c', cs)
  | 'n' :: cs => some ('\n', cs)
  | 'r' :: cs => some ('\r', cs)
  | 't' :: cs => some ('\t', cs)
  | 'u' :: cs => do
    let (n, cs) ← codeUnit? cs
    if n < 0xD800 ∨ 0xE000 ≤ n then return (Char.ofNat n, cs)
    guard (n < 0xDC00)
    let cs ← expect? ['\\', 'u'] cs
    let (m, cs) ← codeUnit? cs
    guard (0xDC00 ≤ m ∧ m < 0xE000)
    return (joinSurrogates n m, cs)
  | _ => none

def textBody? : Nat → List Char → Option (List Char × List Char)
  | 0, _ => none
  | _ + 1, [] => none
  | fuel + 1, c :: cs =>
    if c = '"' then some ([], cs)
    else if c = '\\' then do
      let (e, cs) ← escape? cs
      let (body, cs) ← textBody? fuel cs
      return (e :: body, cs)
    else if c.toNat < 0x20 then none
    else do
      let (body, cs) ← textBody? fuel cs
      return (c :: body, cs)

def text? (cs : List Char) : Option (String × List Char) :=
  (textBody? (cs.length + 1) cs).map fun (body, rest) => (String.ofList body, rest)

def spanDigits (cs : List Char) : List Char × List Char :=
  cs.span Char.isDigit

def fractionExponent? (cs : List Char) : Option (List Char × List Char) := do
  let (fraction, cs) ←
    match cs with
    | '.' :: cs =>
      let (ds, cs) := spanDigits cs
      if ds.isEmpty then none else some ('.' :: ds, cs)
    | cs => some ([], cs)
  match cs with
  | e :: cs' =>
    if e = 'e' ∨ e = 'E' then
      let (sign, cs') :=
        match cs' with
        | '+' :: r => (['+'], r)
        | '-' :: r => (['-'], r)
        | r => ([], r)
      let (ds, cs') := spanDigits cs'
      if ds.isEmpty then none else some (fraction ++ e :: (sign ++ ds), cs')
    else some (fraction, cs)
  | [] => some (fraction, [])

/-- A number. It is whole when it has neither fraction nor exponent and is not minus zero. -/
def number? (cs : List Char) : Option (Value × List Char) := do
  let (negative, cs) :=
    match cs with
    | '-' :: r => (true, r)
    | r => (false, r)
  let (ds, cs) := spanDigits cs
  guard (!ds.isEmpty)
  guard (ds.length = 1 ∨ ds.head? ≠ some '0')
  let n ← Numeral.value? 10 ds
  let (tail, cs) ← fractionExponent? cs
  if tail.isEmpty ∧ ¬(negative ∧ n = 0) then
    return (.int (if negative then -Int.ofNat n else Int.ofNat n), cs)
  else
    return (.decimal (String.ofList ((if negative then ['-'] else []) ++ ds ++ tail)), cs)

mutual

/-- A value after blanks; `fuel` bounds the values and members read. -/
def value? : Nat → List Char → Option (Value × List Char)
  | 0, _ => none
  | fuel + 1, cs =>
    match skipSpaces cs with
    | [] => none
    | c :: rest =>
      if c = 'n' then (expect? ['u', 'l', 'l'] rest).map (Value.null, ·)
      else if c = 't' then (expect? ['r', 'u', 'e'] rest).map (Value.bool true, ·)
      else if c = 'f' then (expect? ['a', 'l', 's', 'e'] rest).map (Value.bool false, ·)
      else if c = '"' then (text? rest).map fun (s, rest) => (Value.text s, rest)
      else if c = '[' then
        match skipSpaces rest with
        | ']' :: rest => some (.list [], rest)
        | rest => (items? fuel rest).map fun (vs, rest) => (Value.list vs, rest)
      else if c = '\x7b' then
        match skipSpaces rest with
        | '\x7d' :: rest => some (.object [], rest)
        | rest => (members? fuel rest).map fun (ms, rest) => (Value.object ms, rest)
      else number? (c :: rest)

def items? : Nat → List Char → Option (List Value × List Char)
  | 0, _ => none
  | fuel + 1, cs => do
    let (v, cs) ← value? fuel cs
    match skipSpaces cs with
    | ',' :: cs =>
      let (vs, cs) ← items? fuel cs
      return (v :: vs, cs)
    | ']' :: cs => return ([v], cs)
    | _ => none

def members? : Nat → List Char → Option (List (String × Value) × List Char)
  | 0, _ => none
  | fuel + 1, cs =>
    match skipSpaces cs with
    | '"' :: cs => do
      let (name, cs) ← text? cs
      let cs ← expect? [':'] (skipSpaces cs)
      let (v, cs) ← value? fuel cs
      match skipSpaces cs with
      | ',' :: cs =>
        let (ms, cs) ← members? fuel cs
        return ((name, v) :: ms, cs)
      | '\x7d' :: cs => return ([(name, v)], cs)
      | _ => none
    | _ => none

end

def parse? (s : String) : Option Value := do
  let cs := s.toList
  let (v, rest) ← value? (2 * cs.length + 2) cs
  guard (skipSpaces rest).isEmpty
  return v

end BridgeNotifier.Json
