import BridgeNotifier.Text.Numeral
import BridgeNotifier.Yaml.Cursor
set_option autoImplicit false

namespace BridgeNotifier.Yaml
open BridgeNotifier.Yaml.Scan

def anchorName : Scan String := do
  skip 1
  let name ← takeWhile isNameChar
  check !name.isEmpty
  let c? ← peek 0
  check (endsWord c? || c?.any fun c => "?:,]\x7d%@\x60".toList.contains c)
  return String.ofList name

/-- The handle of a tag. A directive may declare only a lone mark or a name between two marks. -/
def tagHandle (declared : Bool) : Scan (List Char) := do
  check (← looksAt 0 '!')
  skip 1
  let name ← takeWhile isNameChar
  if ← looksAt 0 '!' then
    skip 1
    return '!' :: name ++ ['!']
  check (!declared || name.isEmpty)
  return '!' :: name

def isTagChar (verbatim : Bool) (c : Char) : Bool :=
  isNameChar c || ";/?:@&=+$.!~*\x27()%".toList.contains c ||
    (verbatim && (c == ',' || c == '[' || c == ']'))

def escapedByte : Scan Nat := do
  check (← looksAt 0 '%')
  skip 1
  let a ← next
  let b ← next
  match Text.Numeral.value? 16 [a, b] with
  | some v => return v
  | none => failure

def laterBytes : Nat → Nat → Scan Nat
  | 0, acc => return acc
  | n + 1, acc => do
    let b ← escapedByte
    check (0x80 ≤ b && b < 0xC0)
    laterBytes n (acc * 0x40 + (b - 0x80))

def escapedBytes : Scan Char := do
  let b ← escapedByte
  if b < 0x80 then return Char.ofNat b
  check (0xC0 ≤ b && b < 0xF8)
  let n ←
    if b < 0xE0 then laterBytes 1 (b - 0xC0)
    else if b < 0xF0 then laterBytes 2 (b - 0xE0)
    else laterBytes 3 (b - 0xF0)
  return Char.ofNat n

def tagChars (verbatim : Bool) : Nat → List Char → Scan (List Char)
  | 0, acc => return acc.reverse
  | fuel + 1, acc => do
    match ← peek 0 with
    | none => return acc.reverse
    | some c =>
      if !isTagChar verbatim c then return acc.reverse
      let c ← if c == '%' then escapedBytes else next
      tagChars verbatim fuel (c :: acc)

def tagText (verbatim : Bool) (start : List Char) : Scan (List Char) := do
  let more ← tagChars verbatim (← get).rest.length []
  check (!start.isEmpty || !more.isEmpty)
  return start.drop 1 ++ more

def tag (bracketed : Bool) : Scan Token := do
  let token ←
    if ← looksAt 1 '<' then do
      skip 2
      let text ← tagText true []
      check (← looksAt 0 '>')
      skip 1
      pure (Token.tag "" (String.ofList text))
    else do
      let handle ← tagHandle false
      if 1 < handle.length && handle.getLast? == some '!' then
        let text ← tagText false []
        pure (Token.tag (String.ofList handle) (String.ofList text))
      else
        let text ← tagText false handle
        pure <| if text.isEmpty then Token.tag "" "!" else Token.tag "!" (String.ofList text)
  unless bracketed && (← looksAt 0 ',') do
    check (endsWord (← peek 0))
  return token

def versionNumber : Scan Nat := do
  let digits ← takeWhile Char.isDigit
  check (!digits.isEmpty && digits.length ≤ 9)
  match Text.Numeral.value? 10 digits with
  | some v => return v
  | none => failure

def directive : Scan Token := do
  skip 1
  let name ← takeWhile isNameChar
  check !name.isEmpty
  check (endsWord (← peek 0))
  let token ←
    if name == "YAML".toList then do
      skipGaps
      let major ← versionNumber
      check (← looksAt 0 '.')
      skip 1
      let minor ← versionNumber
      pure (Token.version major minor)
    else if name == "TAG".toList then do
      skipGaps
      let handle ← tagHandle true
      check ((← peek 0).any isGap)
      skipGaps
      let text ← tagText true []
      check (endsWord (← peek 0))
      pure (Token.tagPrefix (String.ofList handle) (String.ofList text))
    else failure
  skipGaps
  skipComment
  check (endsLine (← peek 0))
  let _ ← takeBreak
  return token

end BridgeNotifier.Yaml
