set_option autoImplicit false

namespace BridgeNotifier.Yaml

inductive Style where
  | plain
  | singleQuoted
  | doubleQuoted
  | literal
  | folded
  deriving DecidableEq, Repr

inductive Token where
  | streamEnd
  | version (major minor : Nat)
  | tagPrefix (handle text : String)
  | documentStart
  | documentEnd
  | blockSequenceStart
  | blockMappingStart
  | blockEnd
  | flowSequenceStart
  | flowSequenceEnd
  | flowMappingStart
  | flowMappingEnd
  | blockEntry
  | flowEntry
  | key
  | value
  | alias (name : String)
  | anchor (name : String)
  | tag (handle suffix : String)
  | scalar (style : Style) (text : String)
  deriving DecidableEq, Repr

def isBreak (c : Char) : Bool :=
  c == '\r' || c == '\n' || c == '\u0085' || c == '\u2028' || c == '\u2029'

def isGap (c : Char) : Bool :=
  c == ' ' || c == '\t'

def endsWord : Option Char → Bool
  | none => true
  | some c => isGap c || isBreak c

def endsLine : Option Char → Bool
  | none => true
  | some c => isBreak c

def isNameChar (c : Char) : Bool :=
  c.isAlphanum || c == '_' || c == '-'

def isAllowed (c : Char) : Bool :=
  let n := c.toNat
  n == 0x09 || n == 0x0A || n == 0x0D || (0x20 ≤ n && n ≤ 0x7E) || n == 0x85 ||
    (0xA0 ≤ n && n ≤ 0xFFFD) || 0x10000 ≤ n

structure Cursor where
  rest : List Char
  index : Nat
  line : Nat
  column : Nat

abbrev Scan := StateT Cursor Option

namespace Scan

def peek (ahead : Nat) : Scan (Option Char) := do
  return (← get).rest[ahead]?

def looksAt (ahead : Nat) (c : Char) : Scan Bool := do
  return (← peek ahead) == some c

def next : Scan Char := do
  let s ← get
  match s.rest with
  | [] => failure
  | c :: rest =>
    set { s with rest := rest, index := s.index + 1, column := s.column + 1 }
    return c

def skip (n : Nat) : Scan Unit := do
  match n with
  | 0 => return ()
  | n + 1 =>
    let _ ← next
    skip n

def takeWhile (p : Char → Bool) : Scan (List Char) := do
  let s ← get
  let (taken, rest) := s.rest.span p
  set { s with
    rest := rest, index := s.index + taken.length, column := s.column + taken.length }
  return taken

def skipGaps : Scan Unit := do
  let _ ← takeWhile isGap

def skipComment : Scan Unit := do
  if ← looksAt 0 '#' then
    let _ ← takeWhile fun c => !isBreak c

/-- Move over the end of a line. Of the five, only the two Unicode separators keep their own form;
at any other place nothing happens. -/
def takeBreak : Scan (List Char) := do
  let s ← get
  match s.rest with
  | '\r' :: '\n' :: rest =>
    set { s with rest := rest, index := s.index + 2, line := s.line + 1, column := 0 }
    return ['\n']
  | c :: rest =>
    if isBreak c then
      set { s with rest := rest, index := s.index + 1, line := s.line + 1, column := 0 }
      return if c == '\u2028' || c == '\u2029' then [c] else ['\n']
    else return []
  | [] => return []

def atDocumentMark : Scan Bool := do
  let s ← get
  if s.column ≠ 0 then return false
  match s.rest with
  | '-' :: '-' :: '-' :: rest => return endsWord rest.head?
  | '.' :: '.' :: '.' :: rest => return endsWord rest.head?
  | _ => return false

def check (b : Bool) : Scan Unit :=
  if b then return () else failure

end Scan
end BridgeNotifier.Yaml
