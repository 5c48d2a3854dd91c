set_option autoImplicit false

namespace BridgeNotifier.Placeholder

abbrev Environment := String → Option String

def isNameStart (c : Char) : Bool :=
  c.isAlpha || c == '_'

def isNamePart (c : Char) : Bool :=
  c.isAlphanum || c == '_'

def name? : List Char → Option (List Char × List Char)
  | [] => none
  | c :: cs =>
    if isNameStart c then
      match cs.dropWhile isNamePart with
      | '\x7d' :: rest => some (c :: cs.takeWhile isNamePart, rest)
      | _ => none
    else none

/-- The name of a reference that the text starts with, and what follows it. -/
def reference? : List Char → Option (List Char × List Char)
  | '$' :: '\x7b' :: cs => name? cs
  | _ => none

def written (name : List Char) : List Char :=
  '$' :: '\x7b' :: name ++ ['\x7d']

theorem length_lt_of_name? {cs name rest : List Char} (h : name? cs = some (name, rest)) :
    rest.length < cs.length := by
  cases cs with
  | nil => simp [name?] at h
  | cons c cs =>
    simp only [name?] at h
    split at h
    · split at h
      · rename_i r hd
        have := (List.dropWhile_suffix (l := cs) isNamePart).length_le
        rw [hd] at this
        simp only [Option.some.injEq, Prod.mk.injEq] at h
        obtain ⟨_, rfl⟩ := h
        simp only [List.length_cons] at this ⊢
        omega
      · simp at h
    · simp at h

theorem length_lt_of_reference? {cs name rest : List Char}
    (h : reference? cs = some (name, rest)) : rest.length < cs.length := by
  unfold reference? at h
  split at h
  · have := length_lt_of_name? h
    simp only [List.length_cons]
    omega
  · simp at h

def valueOf (env : Environment) (name : List Char) : List Char :=
  match env (String.ofList name) with
  | some v => v.toList
  | none => written name

def substituteChars (env : Environment) : List Char → List Char
  | [] => []
  | c :: cs =>
    match _h : reference? (c :: cs) with
    | some (name, rest) => valueOf env name ++ substituteChars env rest
    | none => c :: substituteChars env cs
termination_by cs => cs.length
decreasing_by
  · exact length_lt_of_reference? _h
  · simp

def substitute (env : Environment) (s : String) : String :=
  String.ofList (substituteChars env s.toList)

def names : List Char → List String
  | [] => []
  | c :: cs =>
    match _h : reference? (c :: cs) with
    | some (name, rest) => String.ofList name :: names rest
    | none => names cs
termination_by cs => cs.length
decreasing_by
  · exact length_lt_of_reference? _h
  · simp

end BridgeNotifier.Placeholder
