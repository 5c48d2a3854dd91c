import BridgeNotifier.Yaml.Scalar
import BridgeNotifier.Yaml.Tag
set_option autoImplicit false

namespace BridgeNotifier.Yaml

/-- A place where a key may have begun. -/
structure Candidate where
  required : Bool
  tokenIndex : Nat
  index : Nat
  line : Nat
  column : Nat

structure Scanner where
  cursor : Cursor
  tokens : Array Token
  indents : List Nat
  keyAllowed : Bool
  /-- The candidate of each open flow collection, innermost first, and of the block around them. -/
  candidates : List (Option Candidate)

abbrev ScanTokens := StateT Scanner Option

namespace ScanTokens

def read {α : Type} (scan : Scan α) : ScanTokens α := do
  let s ← get
  match scan s.cursor with
  | none => failure
  | some (a, cursor) =>
    set { s with cursor := cursor }
    return a

def check (b : Bool) : ScanTokens Unit :=
  if b then return () else failure

def emit (t : Token) : ScanTokens Unit :=
  modify fun s => { s with tokens := s.tokens.push t }

def emitAt (i : Nat) (t : Token) : ScanTokens Unit :=
  modify fun s =>
    { s with tokens := (s.tokens.extract 0 i).push t ++ s.tokens.extract i s.tokens.size }

def allowKey (b : Bool) : ScanTokens Unit :=
  modify fun s => { s with keyAllowed := b }

def inFlow : ScanTokens Bool := do
  return 1 < (← get).candidates.length

def candidate? : ScanTokens (Option Candidate) := do
  return ((← get).candidates.head?).join

def setCandidate (c : Option Candidate) : ScanTokens Unit :=
  modify fun s => { s with candidates := c :: s.candidates.drop 1 }

/-- Give up the candidate of the innermost level, unless it must be a key. -/
def dropCandidate : ScanTokens Unit := do
  if let some c ← candidate? then
    check !c.required
    setCandidate none

def closeBlocks (column : Option Nat) : ScanTokens Unit := do
  if ← inFlow then return ()
  let s ← get
  let (closed, open_) := s.indents.span fun i =>
    match column with
    | some c => c < i
    | none => true
  set { s with
    indents := open_
    tokens := s.tokens ++ Array.replicate closed.length Token.blockEnd }

def openBlock (column : Nat) (place : Option Nat) (t : Token) : ScanTokens Unit := do
  if ← inFlow then return ()
  let s ← get
  let deeper :=
    match s.indents with
    | [] => true
    | i :: _ => i < column
  if deeper then
    set { s with indents := column :: s.indents }
    match place with
    | some i => emitAt i t
    | none => emit t

def noteCandidate : ScanTokens Unit := do
  let s ← get
  let required := !(← inFlow) && s.indents.head? == some s.cursor.column
  if s.keyAllowed then
    dropCandidate
    setCandidate (some {
      required := required
      tokenIndex := s.tokens.size
      index := s.cursor.index
      line := s.cursor.line
      column := s.cursor.column })

/-- A key stays on one line and is not longer than 1024 characters. -/
def dropStale : ScanTokens Unit := do
  let s ← get
  let stale (c : Candidate) : Bool :=
    c.line < s.cursor.line || c.index + 1024 < s.cursor.index
  check (s.candidates.all fun c? => !c?.any fun c => stale c && c.required)
  set { s with candidates := s.candidates.map (Option.filter fun c => !stale c) }

def skipToToken : Nat → ScanTokens Unit
  | 0 => return ()
  | fuel + 1 => do
    if (← get).cursor.index = 0 && (← read (Scan.looksAt 0 '\ufeff')) then read (Scan.skip 1)
    let flow ← inFlow
    let tabs := flow || !(← get).keyAllowed
    let _ ← read (Scan.takeWhile fun c => c == ' ' || (tabs && c == '\t'))
    read Scan.skipComment
    if (← read (Scan.peek 0)).any isBreak then
      let _ ← read Scan.takeBreak
      unless flow do allowKey true
      skipToToken fuel

def single (t : Token) : ScanTokens Unit := do
  read (Scan.skip 1)
  emit t

def openFlow (t : Token) : ScanTokens Unit := do
  noteCandidate
  modify fun s => { s with candidates := none :: s.candidates }
  allowKey true
  single t

def closeFlow (t : Token) : ScanTokens Unit := do
  dropCandidate
  if ← inFlow then modify fun s => { s with candidates := s.candidates.drop 1 }
  allowKey false
  single t

def blockEntry : ScanTokens Unit := do
  unless ← inFlow do
    check (← get).keyAllowed
    openBlock (← get).cursor.column none .blockSequenceStart
  dropCandidate
  allowKey true
  single .blockEntry

def explicitKey : ScanTokens Unit := do
  let flow ← inFlow
  unless flow do
    check (← get).keyAllowed
    openBlock (← get).cursor.column none .blockMappingStart
  dropCandidate
  allowKey !flow
  single .key

def value : ScanTokens Unit := do
  match ← candidate? with
  | some c =>
    emitAt c.tokenIndex .key
    openBlock c.column (some c.tokenIndex) .blockMappingStart
    setCandidate none
    allowKey false
  | none =>
    let flow ← inFlow
    unless flow do
      check (← get).keyAllowed
      openBlock (← get).cursor.column none .blockMappingStart
    allowKey !flow
  single .value

def keyPart (scan : Scan Token) : ScanTokens Unit := do
  noteCandidate
  allowKey false
  emit (← read scan)

def block (literal : Bool) : ScanTokens Unit := do
  dropCandidate
  allowKey true
  let text ← read (blockScalar literal (← get).indents.head?)
  emit (.scalar (if literal then .literal else .folded) text)

def plain : ScanTokens Unit := do
  noteCandidate
  allowKey false
  let indent :=
    match (← get).indents with
    | [] => 0
    | i :: _ => i + 1
  let (text, broken) ← read (plainScalar (← inFlow) indent)
  if broken then allowKey true
  emit (.scalar .plain text)

def isIndicator (c : Char) : Bool :=
  "-?:,[]\x7b\x7d#&*!|>\x27\"%@\x60".toList.contains c

def step : ScanTokens Bool := do
  skipToToken ((← get).cursor.rest.length + 1)
  dropStale
  closeBlocks (some (← get).cursor.column)
  let column := (← get).cursor.column
  let flow ← inFlow
  let following ← read (Scan.peek 1)
  match ← read (Scan.peek 0) with
  | none =>
    closeBlocks none
    dropCandidate
    emit .streamEnd
    return true
  | some c =>
    if column = 0 && c == '%' then
      closeBlocks none
      dropCandidate
      allowKey false
      emit (← read directive)
    else if ← read Scan.atDocumentMark then
      closeBlocks none
      dropCandidate
      allowKey false
      read (Scan.skip 3)
      emit (if c == '-' then .documentStart else .documentEnd)
    else if c == '[' then openFlow .flowSequenceStart
    else if c == '\x7b' then openFlow .flowMappingStart
    else if c == ']' then closeFlow .flowSequenceEnd
    else if c == '\x7d' then closeFlow .flowMappingEnd
    else if c == ',' then
      dropCandidate
      allowKey true
      single .flowEntry
    else if c == '-' && endsWord following then blockEntry
    else if c == '?' && (flow || endsWord following) then explicitKey
    else if c == ':' && (flow || endsWord following) then value
    else if c == '*' then keyPart (.alias <$> anchorName)
    else if c == '&' then keyPart (.anchor <$> anchorName)
    else if c == '!' then keyPart (tag flow)
    else if c == '|' && !flow then block true
    else if c == '>' && !flow then block false
    else if c == '\x27' then keyPart (.scalar .singleQuoted <$> quotedScalar c)
    else if c == '"' then keyPart (.scalar .doubleQuoted <$> quotedScalar c)
    else if !(endsWord (some c) || isIndicator c) ||
        (c == '-' && !following.any isGap) ||
        (!flow && (c == '?' || c == ':') && !endsWord following) then plain
    else failure
    return false

def run : Nat → ScanTokens Unit
  | 0 => failure
  | fuel + 1 => do
    unless ← step do run fuel

end ScanTokens

def tokens? (text : List Char) : Option (List Token) := do
  if !text.all isAllowed then none else
  let start : Scanner := {
    cursor := ⟨text, 0, 0, 0⟩, tokens := #[], indents := [], keyAllowed := true,
    candidates := [none] }
  let (_, s) ← ScanTokens.run (text.length + 2) start
  return s.tokens.toList

end BridgeNotifier.Yaml
