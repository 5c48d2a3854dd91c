import BridgeNotifier.Yaml.Tokens
set_option autoImplicit false

/-!
# The nodes of a document

Tokens put together. An alias stays a reference, so that a node may refer to one that contains it.
-/
namespace BridgeNotifier.Yaml

inductive Node where
  | scalar (style : Style) (tag : Option String) (text : String)
  | alias (anchor : Nat)
  | sequence (items : List Node)
  | mapping (entries : List (Node × Node))
  deriving Inhabited

structure Document where
  root : Node
  /-- The anchors in the text that each number stands for, the last one first. -/
  anchors : List (Nat × Nat)
  anchored : List (Nat × Node)

namespace Document

def resolve (d : Document) : Node → Option Node
  | .alias i => (d.anchors.lookup i).bind fun number => d.anchored.lookup number
  | n => some n

end Document

structure Parser where
  tokens : List Token
  names : List (String × Nat)
  anchors : List (Nat × Nat)
  anchored : List (Nat × Node)
  handles : List (String × String)

abbrev Parse := StateT Parser Option

namespace Parse

def peek : Parse Token := do
  return (← get).tokens.headD .streamEnd

def advance : Parse Unit :=
  modify fun s => { s with tokens := s.tokens.drop 1 }

def expect (t : Token) : Parse Unit := do
  if (← peek) = t then advance else failure

def emptyNode : Node := .scalar .plain none ""

/-- An anchor in the text. An anchor of a name that was used before shares its number with the next
new one. -/
def noteAnchor (name : Option String) : Parse (Option Nat) := do
  match name with
  | none => return none
  | some name =>
    let s ← get
    let i := s.anchors.length
    let number := s.names.length
    set { s with
      names := (name, number) :: s.names.filter fun e => e.1 != name
      anchors := (number, i) :: s.anchors }
    return some i

def noteNode (i : Option Nat) (n : Node) : Parse Node := do
  match i with
  | none => return n
  | some i =>
    modify fun s => { s with anchored := (i, n) :: s.anchored }
    return n

def resolveTag : Option (String × String) → Parse (Option String)
  | none => return none
  | some (handle, suffix) => do
    if handle = "" then return some suffix
    match (← get).handles.lookup handle with
    | some text => return some (text ++ suffix)
    | none => failure

def properties : Parse (Option String × Option (String × String)) := do
  match ← peek with
  | .anchor name =>
    advance
    match ← peek with
    | .tag h s => advance; return (some name, some (h, s))
    | _ => return (some name, none)
  | .tag h s =>
    advance
    match ← peek with
    | .anchor name => advance; return (some name, some (h, s))
    | _ => return (none, some (h, s))
  | _ => return (none, none)

def isBlockEntryOrEnd : Token → Bool
  | .blockEntry | .blockEnd => true
  | _ => false

def isKeyValueOrEnd : Token → Bool
  | .key | .value | .blockEnd => true
  | _ => false

/-- What a node is put in: where block collections may stand, and where a sequence may stand at the
indentation of the mapping around it. -/
structure Place where
  block : Bool
  indentless : Bool

def bare (i : Option Nat) (marked : Bool) (tag : Option String) : Parse Node :=
  if marked then noteNode i (.scalar .plain tag "") else failure

mutual

def node (fuel : Nat) (place : Place) : Parse Node :=
  match fuel with
  | 0 => failure
  | fuel + 1 => do
    if let .alias name ← peek then
      advance
      match (← get).names.lookup name with
      | some i => return .alias i
      | none => failure
    let (anchor, tag) ← properties
    let tag ← resolveTag tag
    let i ← noteAnchor anchor
    match ← peek with
    | .scalar style text => advance; noteNode i (.scalar style tag text)
    | .flowSequenceStart => advance; noteNode i (.sequence (← flowItems fuel true))
    | .flowMappingStart => advance; noteNode i (.mapping (← flowEntries fuel true))
    | .blockEntry =>
      if place.indentless then noteNode i (.sequence (← indentlessItems fuel))
      else bare i (anchor.isSome || tag.isSome) tag
    | .blockSequenceStart =>
      if place.block then
        advance
        noteNode i (.sequence (← blockItems fuel))
      else bare i (anchor.isSome || tag.isSome) tag
    | .blockMappingStart =>
      if place.block then
        advance
        noteNode i (.mapping (← blockEntries fuel))
      else bare i (anchor.isSome || tag.isSome) tag
    | _ => bare i (anchor.isSome || tag.isSome) tag
termination_by structural fuel

def nodeUnless (fuel : Nat) (place : Place) (ends : Token → Bool) : Parse Node :=
  match fuel with
  | 0 => failure
  | fuel + 1 => do
    if ends (← peek) then return emptyNode else node fuel place
termination_by structural fuel

def blockItems (fuel : Nat) : Parse (List Node) :=
  match fuel with
  | 0 => failure
  | fuel + 1 => do
    match ← peek with
    | .blockEntry =>
      advance
      let n ← nodeUnless fuel ⟨true, false⟩ isBlockEntryOrEnd
      return n :: (← blockItems fuel)
    | .blockEnd => advance; return []
    | _ => failure
termination_by structural fuel

def indentlessItems (fuel : Nat) : Parse (List Node) :=
  match fuel with
  | 0 => failure
  | fuel + 1 => do
    match ← peek with
    | .blockEntry =>
      advance
      let n ← nodeUnless fuel ⟨true, false⟩ fun t => t = .blockEntry || isKeyValueOrEnd t
      return n :: (← indentlessItems fuel)
    | _ => return []
termination_by structural fuel

def blockEntries (fuel : Nat) : Parse (List (Node × Node)) :=
  match fuel with
  | 0 => failure
  | fuel + 1 => do
    match ← peek with
    | .key =>
      advance
      let k ← nodeUnless fuel ⟨true, true⟩ isKeyValueOrEnd
      let v ←
        match ← peek with
        | .value => do
          advance
          nodeUnless fuel ⟨true, true⟩ isKeyValueOrEnd
        | _ => pure emptyNode
      return (k, v) :: (← blockEntries fuel)
    | .blockEnd => advance; return []
    | _ => failure
termination_by structural fuel

def flowItems (fuel : Nat) (first : Bool) : Parse (List Node) :=
  match fuel with
  | 0 => failure
  | fuel + 1 => do
    if (← peek) = .flowSequenceEnd then
      advance
      return []
    unless first do expect .flowEntry
    match ← peek with
    | .flowSequenceEnd => advance; return []
    | .key =>
      advance
      let k ←
        match ← peek with
        | .value | .flowEntry | .flowSequenceEnd => do
          advance
          pure emptyNode
        | _ => node fuel ⟨false, false⟩
      let v ←
        match ← peek with
        | .value => do
          advance
          nodeUnless fuel ⟨false, false⟩ fun t => t = .flowEntry || t = .flowSequenceEnd
        | _ => pure emptyNode
      return .mapping [(k, v)] :: (← flowItems fuel false)
    | _ =>
      let n ← node fuel ⟨false, false⟩
      return n :: (← flowItems fuel false)
termination_by structural fuel

def flowEntries (fuel : Nat) (first : Bool) : Parse (List (Node × Node)) :=
  match fuel with
  | 0 => failure
  | fuel + 1 => do
    if (← peek) = .flowMappingEnd then
      advance
      return []
    unless first do expect .flowEntry
    match ← peek with
    | .flowMappingEnd => advance; return []
    | .key =>
      advance
      let k ← nodeUnless fuel ⟨false, false⟩ fun t =>
        t = .value || t = .flowEntry || t = .flowMappingEnd
      let v ←
        match ← peek with
        | .value => do
          advance
          nodeUnless fuel ⟨false, false⟩ fun t => t = .flowEntry || t = .flowMappingEnd
        | _ => pure emptyNode
      return (k, v) :: (← flowEntries fuel false)
    | _ =>
      let k ← node fuel ⟨false, false⟩
      return (k, emptyNode) :: (← flowEntries fuel false)
termination_by structural fuel

end

/-- The directives before a document. The version may be given once and must be 1.1 or 1.2, and no
handle may be declared twice. -/
def directives : Nat → Bool → List (String × String) → Parse (Bool × List (String × String))
  | 0, versioned, declared => return (versioned, declared)
  | fuel + 1, versioned, declared => do
    match ← peek with
    | .version major minor =>
      if versioned || major != 1 || (minor != 1 && minor != 2) then failure
      advance
      directives fuel true declared
    | .tagPrefix handle text =>
      if declared.any fun e => e.1 == handle then failure
      advance
      directives fuel versioned ((handle, text) :: declared)
    | _ => return (versioned, declared)

def standardHandles : List (String × String) :=
  [("!", "!"), ("!!", "tag:yaml.org,2002:")]

def skipDocumentEnds : Nat → Parse Unit
  | 0 => return ()
  | fuel + 1 => do
    if (← peek) = .documentEnd then
      advance
      skipDocumentEnds fuel

def document : Parse (Option Node) := do
  let size := (← get).tokens.length
  let fuel := 4 * size + 4
  if (← peek) = .streamEnd then return none
  let (versioned, declared) ← directives size false []
  modify fun s => { s with handles := declared ++ standardHandles }
  let explicit := (← peek) = .documentStart
  if explicit then advance
  else if versioned || !declared.isEmpty then failure
  let n ←
    match ← peek with
    | .version _ _ | .tagPrefix _ _ | .documentStart | .documentEnd | .streamEnd =>
      if explicit then pure emptyNode else failure
    | _ => node fuel ⟨true, false⟩
  skipDocumentEnds size
  expect .streamEnd
  return some n

end Parse

def document? (text : List Char) : Option Document := do
  let tokens ← tokens? text
  let (root, s) ← Parse.document ⟨tokens, [], [], [], []⟩
  return ⟨root.getD Parse.emptyNode, s.anchors, s.anchored⟩

end BridgeNotifier.Yaml
