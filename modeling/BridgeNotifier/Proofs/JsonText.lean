import BridgeNotifier.Json.Parser
import BridgeNotifier.Json.Value
import BridgeNotifier.Proofs.Decimals
import Mathlib.Data.List.TakeDrop
import Mathlib.Data.Option.Basic
set_option autoImplicit false

namespace BridgeNotifier.Json
open Text

theorem codeUnit?_control {c : Char} (h : c.toNat < 0x20) (rest : List Char) :
    codeUnit? ('0' :: '0' :: Numeral.digit (c.toNat / 16) :: Numeral.digit (c.toNat % 16) :: rest) =
      some (c.toNat, rest) := by
  have high : Numeral.digitValue? 16 (Numeral.digit (c.toNat / 16)) = some (c.toNat / 16) :=
    Numeral.digitValue?_digit_of_le (by decide) (by omega)
  have low : Numeral.digitValue? 16 (Numeral.digit (c.toNat % 16)) = some (c.toNat % 16) :=
    Numeral.digitValue?_digit_of_le (by decide) (by omega)
  have zero : Numeral.digitValue? 16 '0' = some 0 := by decide
  simp only [codeUnit?, Numeral.value?, Numeral.extend?, zero, high, low, Option.bind_some,
    Option.map_some]
  congr 2
  omega

theorem escape?_control {c : Char} (h : c.toNat < 0x20) (rest : List Char) :
    escape? ('u' :: '0' :: '0' :: Numeral.digit (c.toNat / 16) :: Numeral.digit (c.toNat % 16) ::
      rest) = some (c, rest) := by
  have low : c.toNat < 0xD800 := by omega
  simp [escape?, codeUnit?_control h, low]

theorem textBody?_escape {e : List Char} {c : Char}
    (reads : ∀ rest, escape? (e ++ rest) = some (c, rest)) (fuel : Nat) (rest : List Char) :
    textBody? (fuel + 1) ('\\' :: e ++ rest) =
      (textBody? fuel rest).map fun p => (c :: p.1, p.2) := by
  cases body : textBody? fuel rest with
  | none => simp [textBody?, reads, body]
  | some p => simp [textBody?, reads, body]

theorem textBody?_plain {c : Char} (quote : c ≠ '"') (backslash : c ≠ '\\')
    (printed : ¬c.toNat < 0x20) (fuel : Nat) (rest : List Char) :
    textBody? (fuel + 1) ([c] ++ rest) = (textBody? fuel rest).map fun p => (c :: p.1, p.2) := by
  cases body : textBody? fuel rest with
  | none => simp [textBody?, quote, backslash, printed, body]
  | some p => simp [textBody?, quote, backslash, printed, body]

theorem textBody?_escaped (c : Char) (fuel : Nat) (rest : List Char) :
    textBody? (fuel + 1) (escaped c ++ rest) =
      (textBody? fuel rest).map fun p => (c :: p.1, p.2) := by
  have named : ∀ e : Char, (∀ rest, escape? (e :: rest) = some (c, rest)) →
      textBody? (fuel + 1) (['\\', e] ++ rest) =
        (textBody? fuel rest).map fun p => (c :: p.1, p.2) :=
    fun e reads => textBody?_escape (e := [e]) reads fuel rest
  unfold escaped
  split
  · next quote => exact named '"' (by simp [escape?, quote])
  split
  · next backslash => exact named '\\' (by simp [escape?, backslash])
  split
  · next newline => exact named 'n' (by simp [escape?, newline])
  split
  · next ret => exact named 'r' (by simp [escape?, ret])
  split
  · next tab => exact named 't' (by simp [escape?, tab])
  split
  · next back => exact named 'b' (by simp [escape?, back])
  split
  · next feed => exact named 'f' (by simp [escape?, feed])
  split
  · next control => exact textBody?_escape (escape?_control control) fuel rest
  · next quote backslash _ _ _ _ _ printed =>
    exact textBody?_plain quote backslash printed fuel rest

theorem textBody?_render (cs : List Char) {fuel : Nat} (h : cs.length < fuel) (rest : List Char) :
    textBody? fuel (cs.flatMap escaped ++ '"' :: rest) = some (cs, rest) := by
  induction cs generalizing fuel with
  | nil =>
    obtain ⟨left, rfl⟩ := Nat.exists_eq_succ_of_ne_zero (Nat.ne_zero_of_lt h)
    simp [textBody?]
  | cons c cs ih =>
    obtain ⟨left, rfl⟩ := Nat.exists_eq_succ_of_ne_zero (Nat.ne_zero_of_lt h)
    rw [List.flatMap_cons, List.append_assoc, textBody?_escaped, ih (by simpa using h)]
    rfl

theorem length_le_flatMap_escaped (cs : List Char) : cs.length ≤ (cs.flatMap escaped).length := by
  induction cs with
  | nil => simp
  | cons c cs ih =>
    have one : 1 ≤ (escaped c).length := by
      unfold escaped
      repeat' split
      all_goals simp
    rw [List.flatMap_cons, List.length_append, List.length_cons]
    omega

theorem text?_render (s : String) (rest : List Char) :
    text? (s.toList.flatMap escaped ++ '"' :: rest) = some (s, rest) := by
  have fuel : s.toList.length <
      (s.toList.flatMap escaped ++ '"' :: rest).length + 1 := by
    have le := length_le_flatMap_escaped s.toList
    rw [List.length_append]
    omega
  rw [text?, textBody?_render s.toList fuel rest]
  simp

/-- A number does not go on into such a text. -/
def Stops (rest : List Char) : Prop :=
  ∀ c ∈ rest.head?, c.isDigit = false ∧ c ≠ '.' ∧ c ≠ 'e' ∧ c ≠ 'E'

theorem stops_nil : Stops [] := by
  intro c hc
  simp at hc

theorem stops_comma (rest : List Char) : Stops (',' :: rest) := by
  simp [Stops]

theorem stops_bracket (rest : List Char) : Stops (']' :: rest) := by
  simp [Stops]

theorem stops_brace (rest : List Char) : Stops ('\x7d' :: rest) := by
  simp [Stops]

theorem spanDigits_append {digits rest : List Char} (all : ∀ c ∈ digits, c.isDigit = true)
    (h : Stops rest) : spanDigits (digits ++ rest) = (digits, rest) := by
  rw [spanDigits, List.span_eq_takeWhile_dropWhile, List.takeWhile_append_of_pos all,
    List.dropWhile_append_of_pos all]
  cases rest with
  | nil => simp
  | cons c cs =>
    have stop := (h c rfl).1
    simp [stop]

theorem fractionExponent?_of_stops {rest : List Char} (h : Stops rest) :
    fractionExponent? rest = some ([], rest) := by
  cases rest with
  | nil => rfl
  | cons c cs =>
    obtain ⟨-, point, small, large⟩ := h c rfl
    simp [fractionExponent?, point, small, large]

theorem head?_render_ne_minus (n : Nat) : (Numeral.render 10 n).head? ≠ some '-' := by
  intro minus
  have digit := Numeral.isDigit_of_mem_render n '-' (List.mem_of_head? minus)
  simp at digit

theorem number?_render (n : Nat) {rest : List Char} (h : Stops rest) :
    number? (Numeral.render 10 n ++ rest) = some (.int n, rest) := by
  have span := spanDigits_append (Numeral.isDigit_of_mem_render n) h
  have read := Numeral.value?_decimal n
  have front := Numeral.head?_render n
  have minus := head?_render_ne_minus n
  obtain ⟨d, ds, shape⟩ := List.exists_cons_of_ne_nil (Numeral.render_ne_nil 10 n)
  rw [shape] at span read front minus ⊢
  rw [List.cons_append] at span ⊢
  have unsigned : d ≠ '-' := by simpa using minus
  have leading : ds = [] ∨ ¬d = '0' := by simpa using front
  simp [number?, unsigned, span, read, leading, guard, fractionExponent?_of_stops h]

theorem number?_minus (n : Nat) {rest : List Char} (h : Stops rest) :
    number? ('-' :: Numeral.render 10 (n + 1) ++ rest) = some (.int (.negSucc n), rest) := by
  have span := spanDigits_append (Numeral.isDigit_of_mem_render (n + 1)) h
  have read := Numeral.value?_decimal (n + 1)
  have front := Numeral.head?_render (n + 1)
  have written := Numeral.render_ne_nil 10 (n + 1)
  have value : -((n : Int) + 1) = Int.negSucc n := by omega
  rw [List.cons_append]
  simp [number?, span, read, front, written, value, guard, fractionExponent?_of_stops h]

theorem number?_renderInt (i : Int) {rest : List Char} (h : Stops rest) :
    number? (renderInt i ++ rest) = some (.int i, rest) := by
  cases i with
  | ofNat n => exact number?_render n h
  | negSucc n => exact number?_minus n h

mutual

def Value.Whole : Value → Prop
  | .decimal _ => False
  | .list items => WholeItems items
  | .object members => WholeMembers members
  | _ => True

def WholeItems : List Value → Prop
  | [] => True
  | v :: vs => v.Whole ∧ WholeItems vs

def WholeMembers : List (String × Value) → Prop
  | [] => True
  | m :: ms => m.2.Whole ∧ WholeMembers ms

end

def OpensNumber (c : Char) : Prop :=
  c = '-' ∨ c.isDigit = true

theorem OpensNumber.ne {c : Char} (h : OpensNumber c) {d : Char} (other : d ≠ '-')
    (letter : d.isDigit = false) : c ≠ d := by
  rintro rfl
  rcases h with sign | digit
  · exact other sign
  · simp [letter] at digit

theorem OpensNumber.isSpace {c : Char} (h : OpensNumber c) : isSpace c = false := by
  have blank : c ≠ ' ' := h.ne (by decide) (by decide)
  have newline : c ≠ '\n' := h.ne (by decide) (by decide)
  have tab : c ≠ '\t' := h.ne (by decide) (by decide)
  have ret : c ≠ '\r' := h.ne (by decide) (by decide)
  simp [Json.isSpace, blank, newline, tab, ret]

theorem renderInt_cons (i : Int) : ∃ c cs, renderInt i = c :: cs ∧ OpensNumber c := by
  cases i with
  | ofNat n =>
    obtain ⟨d, ds, shape⟩ := List.exists_cons_of_ne_nil (Numeral.render_ne_nil 10 n)
    exact ⟨d, ds, shape, .inr (Numeral.isDigit_of_mem_render n d (by simp [shape]))⟩
  | negSucc n => exact ⟨'-', _, rfl, .inl rfl⟩

def Begins (cs : List Char) : Prop :=
  ∃ c rest, cs = c :: rest ∧ isSpace c = false ∧ c ≠ ']'

theorem Begins.append {cs : List Char} (h : Begins cs) (rest : List Char) :
    Begins (cs ++ rest) := by
  obtain ⟨c, front, rfl, ok⟩ := h
  exact ⟨c, front ++ rest, rfl, ok⟩

theorem begins_render {v : Value} (h : v.Whole) : Begins v.render := by
  cases v with
  | null => exact ⟨'n', _, rfl, by decide⟩
  | bool b => cases b <;> exact ⟨_, _, rfl, by decide⟩
  | int i =>
    obtain ⟨c, cs, shape, number⟩ := renderInt_cons i
    exact ⟨c, cs, shape, number.isSpace, number.ne (by decide) (by decide)⟩
  | decimal written => exact absurd h (by simp [Value.Whole])
  | text s => exact ⟨'"', _, rfl, by decide⟩
  | list vs => exact ⟨'[', _, rfl, by decide⟩
  | object ms => exact ⟨'\x7b', _, rfl, by decide⟩

theorem skipSpaces_cons {c : Char} (h : isSpace c = false) (cs : List Char) :
    skipSpaces (c :: cs) = c :: cs := by
  simp [skipSpaces, h]

theorem value?_int (i : Int) (fuel : Nat) {rest : List Char} (h : Stops rest) :
    value? (fuel + 1) (renderInt i ++ rest) = some (.int i, rest) := by
  obtain ⟨c, cs, shape, number⟩ := renderInt_cons i
  have read := number?_renderInt i h
  rw [shape, List.cons_append] at read ⊢
  have n : c ≠ 'n' := number.ne (by decide) (by decide)
  have t : c ≠ 't' := number.ne (by decide) (by decide)
  have f : c ≠ 'f' := number.ne (by decide) (by decide)
  have quote : c ≠ '"' := number.ne (by decide) (by decide)
  have bracket : c ≠ '[' := number.ne (by decide) (by decide)
  have brace : c ≠ '\x7b' := number.ne (by decide) (by decide)
  simp [value?, skipSpaces_cons number.isSpace, n, t, f, quote, bracket, brace, read]

theorem value?_text (s : String) (fuel : Nat) (rest : List Char) :
    value? (fuel + 1) (renderText s ++ rest) = some (.text s, rest) := by
  have blank : skipSpaces (renderText s ++ rest) = renderText s ++ rest :=
    skipSpaces_cons (by decide) _
  simp [value?, blank]
  simp [renderText, text?_render]

theorem value?_list {fuel : Nat} {body rest : List Char} {vs : List Value} (begins : Begins body)
    (read : items? fuel body = some (vs, rest)) :
    value? (fuel + 1) ('[' :: body) = some (.list vs, rest) := by
  obtain ⟨c, cs, rfl, blank, bracket⟩ := begins
  simp [value?, skipSpaces_cons (c := '[') (by decide), skipSpaces_cons blank, bracket, read]

theorem value?_object {fuel : Nat} {body rest : List Char} {ms : List (String × Value)}
    (read : members? fuel ('"' :: body) = some (ms, rest)) :
    value? (fuel + 1) ('\x7b' :: '"' :: body) = some (.object ms, rest) := by
  simp [value?, skipSpaces, isSpace, read]

theorem begins_renderItems {v : Value} (h : v.Whole) (vs : List Value) :
    Begins (renderItems (v :: vs)) := by
  cases vs with
  | nil => exact (begins_render h).append _
  | cons w ws => exact (begins_render h).append _

theorem renderMembers_cons (m : String × Value) (ms : List (String × Value)) :
    ∃ body, renderMembers (m :: ms) = '"' :: body := by
  cases ms with
  | nil => exact ⟨_, rfl⟩
  | cons n ns => exact ⟨_, rfl⟩

theorem succ_of_length_le {cs : List Char} {fuel : Nat} (written : cs ≠ []) (h : cs.length ≤ fuel) :
    ∃ left, fuel = left + 1 :=
  Nat.exists_eq_succ_of_ne_zero (by have pos := List.length_pos_iff.2 written; omega)

-- Reading a part takes one from the fuel, and every part is shorter than the whole.
mutual

theorem value?_render (v : Value) (h : v.Whole) {fuel : Nat} (enough : v.render.length ≤ fuel)
    {rest : List Char} (stops : Stops rest) : value? fuel (v.render ++ rest) = some (v, rest) := by
  obtain ⟨left, rfl⟩ : ∃ left, fuel = left + 1 := by
    obtain ⟨c, cs, shape, -⟩ := begins_render h
    exact succ_of_length_le (by simp [shape]) enough
  match v with
  | .null =>
    simp [Value.render, value?, skipSpaces, isSpace, expect?]
  | .bool true =>
    simp [Value.render, value?, skipSpaces, isSpace, expect?]
  | .bool false =>
    simp [Value.render, value?, skipSpaces, isSpace, expect?]
  | .int i => exact value?_int i left stops
  | .decimal written => exact absurd h (by simp [Value.Whole])
  | .text s => exact value?_text s left rest
  | .list [] =>
    simp [Value.render, renderItems, value?, skipSpaces, isSpace]
  | .list (v :: vs) =>
    simp only [Value.render, List.length_cons, Nat.add_le_add_iff_right] at enough
    exact value?_list ((begins_renderItems h.1 vs).append rest) (items?_render v vs h enough rest)
  | .object [] =>
    simp [Value.render, renderMembers, value?, skipSpaces, isSpace]
  | .object (m :: ms) =>
    simp only [Value.render, List.length_cons, Nat.add_le_add_iff_right] at enough
    obtain ⟨body, shape⟩ := renderMembers_cons m ms
    have read := members?_render m ms h enough rest
    rw [Value.render, List.cons_append]
    rw [shape, List.cons_append] at read ⊢
    exact value?_object read
termination_by fuel

theorem items?_render (v : Value) (vs : List Value) (h : WholeItems (v :: vs)) {fuel : Nat}
    (enough : (renderItems (v :: vs)).length ≤ fuel) (rest : List Char) :
    items? fuel (renderItems (v :: vs) ++ rest) = some (v :: vs, rest) := by
  obtain ⟨left, rfl⟩ : ∃ left, fuel = left + 1 := by
    obtain ⟨c, cs, shape, -⟩ := begins_renderItems h.1 vs
    exact succ_of_length_le (by simp [shape]) enough
  match vs with
  | [] =>
    have room : v.render.length ≤ left := by simpa [renderItems] using enough
    have first := value?_render v h.1 room (stops_bracket rest)
    simp [renderItems, items?, first, skipSpaces, isSpace]
  | w :: ws =>
    simp only [renderItems, List.length_append, List.length_cons] at enough
    have room : v.render.length ≤ left := by omega
    have further : (renderItems (w :: ws)).length ≤ left := by omega
    have first := value?_render v h.1 room (stops_comma (renderItems (w :: ws) ++ rest))
    have others := items?_render w ws h.2 further rest
    simp [renderItems, items?, first, others, skipSpaces, isSpace]
termination_by fuel

theorem members?_render (m : String × Value) (ms : List (String × Value))
    (h : WholeMembers (m :: ms)) {fuel : Nat} (enough : (renderMembers (m :: ms)).length ≤ fuel)
    (rest : List Char) :
    members? fuel (renderMembers (m :: ms) ++ rest) = some (m :: ms, rest) := by
  obtain ⟨left, rfl⟩ : ∃ left, fuel = left + 1 := by
    obtain ⟨body, shape⟩ := renderMembers_cons m ms
    exact succ_of_length_le (by simp [shape]) enough
  obtain ⟨name, v⟩ := m
  match ms with
  | [] =>
    simp only [renderMembers, List.length_append, List.length_cons] at enough
    have room : v.render.length ≤ left := by omega
    have first := value?_render v h.1 room (stops_brace rest)
    simp [renderMembers, renderText, members?, text?_render, expect?, first, skipSpaces, isSpace]
  | n :: ns =>
    simp only [renderMembers, List.length_append, List.length_cons] at enough
    have room : v.render.length ≤ left := by omega
    have further : (renderMembers (n :: ns)).length ≤ left := by omega
    have first := value?_render v h.1 room (stops_comma (renderMembers (n :: ns) ++ rest))
    have others := members?_render n ns h.2 further rest
    simp [renderMembers, renderText, members?, text?_render, expect?, first, others, skipSpaces,
      isSpace]
termination_by fuel

end

/-- Writing a value and reading its text gives the value back. -/
theorem parse?_toText {v : Value} (h : v.Whole) : parse? v.toText = some v := by
  have enough : v.render.length ≤ 2 * v.render.length + 2 := by omega
  have read := value?_render v h enough stops_nil
  rw [List.append_nil] at read
  have chars : v.toText.toList = v.render := String.toList_ofList
  rw [parse?, chars]
  simp only [read]
  rfl

theorem toText_injective {v w : Value} (hv : v.Whole) (hw : w.Whole) (h : v.toText = w.toText) :
    v = w := by
  have read := parse?_toText hv
  rw [h, parse?_toText hw] at read
  exact (Option.some.inj read).symm

end BridgeNotifier.Json
