import BridgeNotifier.Text.Numeral
import BridgeNotifier.Yaml.Cursor
set_option autoImplicit false

namespace BridgeNotifier.Yaml
open BridgeNotifier.Yaml.Scan

structure Spacing where
  broken : Bool
  gaps : List Char
  firstBreak : List Char
  laterBreaks : List Char

namespace Spacing

def none : Spacing := ⟨false, [], [], []⟩

def folded (s : Spacing) : List Char :=
  if s.broken then
    if s.firstBreak.head? == some '\n' then
      if s.laterBreaks.isEmpty then [' '] else s.laterBreaks
    else s.firstBreak ++ s.laterBreaks
  else s.gaps

end Spacing

/-- Read spacing. A tab that stands left of column `indent` after a line end is refused. -/
def spacing (indent : Option Nat) : Nat → Spacing → Scan Spacing
  | 0, s => return s
  | fuel + 1, s => do
    match ← peek 0 with
    | some c =>
      if isGap c then
        if let some indent := indent then
          check !(s.broken && (← get).column < indent && c == '\t')
        let c ← next
        spacing indent fuel (if s.broken then s else { s with gaps := s.gaps ++ [c] })
      else if isBreak c then
        let b ← takeBreak
        spacing indent fuel <|
          if s.broken then { s with laterBreaks := s.laterBreaks ++ b }
          else { s with broken := true, gaps := [], firstBreak := b }
      else return s
    | none => return s

def hexDigits (n : Nat) : Scan Nat := do
  let digits ← (List.range n).mapM fun _ => next
  match Text.Numeral.value? 16 digits with
  | some v => return v
  | none => failure

def codePoint (n : Nat) : Scan Char := do
  check ((n < 0xD800 || 0xE000 ≤ n) && n ≤ 0x10FFFF)
  return Char.ofNat n

def escapedChar : Scan Char := do
  match ← next with
  | '0' => return '\x00'
  | 'a' => return '\x07'
  | 'b' => return '\x08'
  | 't' => return '\t'
  | '\t' => return '\t'
  | 'n' => return '\n'
  | 'v' => return '\x0b'
  | 'f' => return '\x0c'
  | 'r' => return '\r'
  | 'e' => return '\x1b'
  | ' ' => return ' '
  | '"' => return '"'
  | '/' => return '/'
  | '\\' => return '\\'
  | 'N' => return '\u0085'
  | '_' => return '\u00a0'
  | 'L' => return '\u2028'
  | 'P' => return '\u2029'
  | 'x' => codePoint (← hexDigits 2)
  | 'u' => codePoint (← hexDigits 4)
  | 'U' => codePoint (← hexDigits 8)
  | _ => failure

/-- A word between quotes: up to a gap, a line end, the closing quote, or an escaped line end.
Tells whether it stopped at an escaped line end. -/
def quotedWord (quote : Char) : Nat → List Char → Scan (List Char × Bool)
  | 0, acc => return (acc, false)
  | fuel + 1, acc => do
    let c? ← peek 0
    match c? with
    | none => return (acc, false)
    | some c =>
      if endsWord c? then return (acc, false)
      else if quote == '\x27' && c == quote then
        if ← looksAt 1 quote then
          skip 2
          quotedWord quote fuel (quote :: acc)
        else return (acc, false)
      else if c == quote then return (acc, false)
      else if quote == '"' && c == '\\' then
        skip 1
        match ← peek 0 with
        | none => failure
        | some d =>
          if isBreak d then
            let _ ← takeBreak
            return (acc, true)
          else
            let e ← escapedChar
            quotedWord quote fuel (e :: acc)
      else
        skip 1
        quotedWord quote fuel (c :: acc)

def quotedWords (quote : Char) : Nat → List Char → Scan (List Char)
  | 0, _ => failure
  | fuel + 1, acc => do
    check !(← atDocumentMark)
    let size := (← get).rest.length
    check (0 < size)
    let (acc, joined) ← quotedWord quote size acc
    if ← looksAt 0 quote then
      skip 1
      return acc
    let s ← spacing none size ⟨joined, [], [], []⟩
    quotedWords quote fuel (s.folded.reverse ++ acc)

def quotedScalar (quote : Char) : Scan String := do
  skip 1
  let size := (← get).rest.length
  return String.ofList (← quotedWords quote (size + 1) []).reverse

def isBracketMark (c : Char) : Bool :=
  c == ',' || c == '[' || c == ']' || c == '\x7b' || c == '\x7d'

def plainWord (bracketed : Bool) : Nat → List Char → Scan (List Char)
  | 0, acc => return acc
  | fuel + 1, acc => do
    let c? ← peek 0
    match c? with
    | none => return acc
    | some c =>
      if endsWord c? then return acc
      let following ← peek 1
      check !(bracketed && c == ':' && following.any fun d => isBracketMark d || d == '?')
      if c == ':' && endsWord following then return acc
      if bracketed && isBracketMark c then return acc
      skip 1
      plainWord bracketed fuel (c :: acc)

/-- The words of a plain scalar, backwards, and whether it ended after a line end. `pending` is the
spacing before the next word. -/
def plainWords (bracketed : Bool) (indent : Nat) :
    Nat → List Char → Spacing → Scan (List Char × Bool)
  | 0, acc, pending => return (acc, pending.broken)
  | fuel + 1, acc, pending => do
    if (← atDocumentMark) || (← looksAt 0 '#') then return (acc, pending.broken)
    let size := (← get).rest.length
    let word ← plainWord bracketed size []
    let (acc, pending) :=
      if word.isEmpty then (acc, pending)
      else (word ++ (pending.folded.reverse ++ acc), Spacing.none)
    unless (← peek 0).any (fun c => isGap c || isBreak c) do return (acc, pending.broken)
    let pending ← spacing (some indent) size pending
    if !bracketed && (← get).column < indent then return (acc, pending.broken)
    plainWords bracketed indent fuel acc pending

def plainScalar (bracketed : Bool) (indent : Nat) : Scan (String × Bool) := do
  let size := (← get).rest.length
  let (acc, broken) ← plainWords bracketed indent (size + 1) [] Spacing.none
  return (String.ofList acc.reverse, broken)

inductive Chomping where
  | strip
  | clip
  | keep
  deriving DecidableEq

def chomping? : Scan (Option Chomping) := do
  match ← peek 0 with
  | some '+' => skip 1; return some .keep
  | some '-' => skip 1; return some .strip
  | _ => return none

def increment? : Scan (Option Nat) := do
  match ← peek 0 with
  | some c =>
    if c.isDigit then
      check (c != '0')
      skip 1
      return some (c.toNat - 48)
    else return none
  | none => return none

/-- Empty lines of a block scalar. An indentation of zero is not known yet; then the widest line
met is measured. -/
def blockBreaks (indent : Nat) : Nat → Nat → List Char → Scan (Nat × List Char)
  | 0, widest, acc => return (widest, acc)
  | fuel + 1, widest, acc => do
    let s ← get
    let room := if indent = 0 then s.rest.length else indent - s.column
    let spaces := ((s.rest.take room).takeWhile (· == ' ')).length
    skip spaces
    let column := (← get).column
    let widest := max widest column
    let c? ← peek 0
    check !((indent = 0 || column < indent) && c? == some '\t')
    if c?.any isBreak then
      let b ← takeBreak
      blockBreaks indent fuel widest (acc ++ b)
    else return (widest, acc)

/-- The lines of a block scalar, backwards. `ended` is the end of the line before, `empty` the
empty lines after it, `wasGap` tells whether that line began with a gap. -/
def blockLines (literal : Bool) (indent : Nat) :
    Nat → List Char → List Char → List Char → Bool →
      Scan (List Char × List Char × List Char)
  | 0, acc, ended, empty, _ => return (acc, ended, empty)
  | fuel + 1, acc, ended, empty, wasGap => do
    let s ← get
    if s.column ≠ indent ∨ s.rest.isEmpty then return (acc, ended, empty)
    let isGapNow := s.rest.head?.any isGap
    let joint :=
      if !literal && ended.head? == some '\n' && !wasGap && !isGapNow then
        if empty.isEmpty then [' '] else []
      else ended
    let line ← takeWhile fun c => !isBreak c
    let b ← takeBreak
    let (_, empty') ← blockBreaks indent (s.rest.length + 1) 0 []
    blockLines literal indent fuel
      (line.reverse ++ (empty.reverse ++ (joint.reverse ++ acc))) b empty' isGapNow

def blockScalar (literal : Bool) (outer : Option Nat) : Scan String := do
  skip 1
  let first ← chomping?
  let increment ← increment?
  let second ← if first.isNone && increment.isSome then chomping? else pure none
  skipGaps
  skipComment
  check (endsLine (← peek 0))
  let _ ← takeBreak
  let size := (← get).rest.length
  let given := increment.map fun n => (outer.getD 0) + n
  let (widest, empty) ← blockBreaks (given.getD 0) (size + 1) 0 []
  let least :=
    match outer with
    | some column => column + 1
    | none => 1
  let indent := given.getD (max widest least)
  let (acc, ended, trailing) ← blockLines literal indent (size + 1) [] [] empty false
  let chomp := (first.or second).getD .clip
  let acc := if chomp = .strip then acc else ended.reverse ++ acc
  let acc := if chomp = .keep then trailing.reverse ++ acc else acc
  return String.ofList acc.reverse

end BridgeNotifier.Yaml
