import BridgeNotifier.Chain.Client
import Mathlib.Algebra.Group.Nat.Defs
import Mathlib.Data.List.Induction
import Mathlib.Tactic.Simproc.ExistsAndEq
set_option autoImplicit false

namespace BridgeNotifier.Quantity
open Text

def hexDigits : List (Char × Nat) :=
  ['0', '1', '2', '3', '4', '5', '6', '7', '8', '9', 'a', 'b', 'c', 'd', 'e', 'f'].zipIdx ++
    ['A', 'B', 'C', 'D', 'E', 'F'].zipIdx 10

/-- Digits, the most significant one first, denote a number. No digits denote zero. -/
inductive Denotes : List Char → Nat → Prop where
  | none : Denotes [] 0
  | digit {cs : List Char} {n : Nat} {c : Char} {d : Nat} (before : Denotes cs n)
      (last : (c, d) ∈ hexDigits) : Denotes (cs ++ [c]) (n * 16 + d)

theorem digitValue?_lt {base : Nat} {c : Char} {d : Nat} (h : Numeral.digitValue? base c = some d) :
    d < base := by
  obtain ⟨small, value⟩ := Option.ite_none_right_eq_some.mp h
  cases value
  exact small

theorem toNat_lt_of_digitValue? {c : Char} {d : Nat} (h : Numeral.digitValue? 16 c = some d) :
    c.toNat < 128 := by
  have ascii : ∀ last : Char, last.toNat < 128 → c ≤ last → c.toNat < 128 := fun last small le =>
    Nat.lt_of_le_of_lt (UInt32.le_iff_toNat_le.mp le) small
  obtain ⟨value, -⟩ := Option.ite_none_right_eq_some.mp h
  split at value
  case isTrue within => exact ascii '9' (by decide) within.2
  case isFalse =>
    split at value
    case isTrue within => exact ascii 'z' (by decide) within.2
    case isFalse =>
      split at value
      case isTrue within => exact ascii 'Z' (by decide) within.2
      case isFalse => exact absurd value (Nat.lt_irrefl 16)

theorem digitValue?_eq_some_iff {c : Char} {d : Nat} :
    Numeral.digitValue? 16 c = some d ↔ (c, d) ∈ hexDigits := by
  have known : ∀ n, n < 128 → ∀ d, d < 16 →
      (Numeral.digitValue? 16 (Char.ofNat n) = some d ↔ (Char.ofNat n, d) ∈ hexDigits) := by
    decide +kernel
  have entries : ∀ e ∈ hexDigits, e.1.toNat < 128 ∧ e.2 < 16 := by decide
  constructor
  · intro h
    have same := known c.toNat (toNat_lt_of_digitValue? h) d (digitValue?_lt h)
    rw [Char.ofNat_toNat] at same
    exact same.mp h
  · intro h
    obtain ⟨ascii, small⟩ := entries _ h
    have same := known c.toNat ascii d small
    rw [Char.ofNat_toNat] at same
    exact same.mpr h

theorem value?_append_digit {cs : List Char} {c : Char} :
    Numeral.value? 16 (cs ++ [c]) =
      (Numeral.value? 16 cs).bind fun n => (Numeral.digitValue? 16 c).map (n * 16 + ·) := by
  rw [Numeral.value?, Numeral.extend?_append]
  congr 1
  funext n
  cases h : Numeral.digitValue? 16 c <;> simp [Numeral.extend?, h]

theorem value?_eq_some_iff {cs : List Char} {n : Nat} :
    Numeral.value? 16 cs = some n ↔ Denotes cs n := by
  constructor
  · induction cs using List.reverseRecOn generalizing n with
    | nil =>
      intro h
      cases h
      exact .none
    | append_singleton cs c ih =>
      intro h
      rw [value?_append_digit, Option.bind_eq_some_iff] at h
      obtain ⟨m, before, rest⟩ := h
      obtain ⟨d, last, rfl⟩ := Option.map_eq_some_iff.mp rest
      exact .digit (ih before) (digitValue?_eq_some_iff.mp last)
  · intro h
    induction h with
    | none => rfl
    | digit before last ih => simp [value?_append_digit, ih, digitValue?_eq_some_iff.mpr last]

/-- The bound is checked after every digit, which is the same as checking the number at the end: a
number only grows with its digits. -/
theorem le_of_extend? {acc n : Nat} {cs : List Char} (h : Numeral.extend? 16 acc cs = some n) :
    acc ≤ n := by
  induction cs generalizing acc with
  | nil => simp_all [Numeral.extend?]
  | cons c cs ih =>
    rw [Numeral.extend?, Option.bind_eq_some_iff] at h
    obtain ⟨d, -, rest⟩ := h
    have := ih rest
    omega

theorem extend_eq_ok_iff {acc n : Nat} {cs : List Char} (small : acc < 2 ^ 64) :
    extend acc cs = .ok n ↔ Numeral.extend? 16 acc cs = some n ∧ n < 2 ^ 64 := by
  induction cs generalizing acc with
  | nil =>
    simp only [extend, Numeral.extend?, Except.ok.injEq, Option.some.injEq]
    omega
  | cons c cs ih =>
    cases value : Numeral.digitValue? 16 c with
    | none => simp [extend, Numeral.extend?, value]
    | some d =>
      simp only [extend, Numeral.extend?, value, Option.bind_some]
      split
      case isTrue within => exact ih within
      case isFalse beyond =>
        constructor
        · intro h
          cases h
        · rintro ⟨h, bound⟩
          have := le_of_extend? h
          omega

def marks : List String := ["0x", "0X"]

def Written (raw : String) (v : UInt64) : Prop :=
  ∃ mark ∈ marks, ∃ cs, raw = mark ++ String.ofList cs ∧ Denotes cs v.toNat

/-- A mark, a plus sign, and one digit or more that denote the number. -/
def Signed (raw : String) (v : UInt64) : Prop :=
  ∃ mark ∈ marks, ∃ cs, cs ≠ [] ∧ raw = mark ++ "+" ++ String.ofList cs ∧ Denotes cs v.toNat

theorem digits_eq_ok_iff {cs : List Char} {n : Nat} :
    digits cs = .ok n ↔
      n < 2 ^ 64 ∧ (Denotes cs n ∨ ∃ ds, ds ≠ [] ∧ cs = '+' :: ds ∧ Denotes ds n) := by
  have unsigned : ∀ ds, extend 0 ds = .ok n ↔ n < 2 ^ 64 ∧ Denotes ds n := fun ds => by
    rw [extend_eq_ok_iff (by decide), ← value?_eq_some_iff, and_comm, Numeral.value?]
  have plus : ∀ ds, ¬ Denotes ('+' :: ds) n := fun ds h => by
    cases value?_eq_some_iff.mpr h
  unfold digits
  split
  case h_1 c ds => simp [unsigned, plus]
  case h_2 other =>
    rw [unsigned]
    refine and_congr_right fun _ => ⟨.inl, fun h => ?_⟩
    obtain read | ⟨ds, nonempty, rfl, -⟩ := h
    · exact read
    · obtain ⟨c, ds, rfl⟩ := List.exists_cons_of_ne_nil nonempty
      exact absurd rfl (other c ds)

theorem afterMark?_eq_some_iff {cs ds : List Char} :
    afterMark? cs = some ds ↔ ∃ mark ∈ marks, cs = mark.toList ++ ds := by
  unfold afterMark?
  split <;> simp_all [marks]

theorem toNat_ofNat_eq_iff {n : Nat} {v : UInt64} (small : n < 2 ^ 64) :
    UInt64.ofNat n = v ↔ n = v.toNat := by
  rw [← UInt64.toNat_inj, UInt64.toNat_ofNat_of_lt' small]

theorem parse_eq_ok_iff {raw : String} {v : UInt64} :
    parse raw = .ok v ↔ ∃ ds, afterMark? raw.toList = some ds ∧ digits ds = .ok v.toNat := by
  unfold parse
  split
  case h_1 unmarked => simp [unmarked]
  case h_2 ds marked =>
    rw [marked]
    simp only [Option.some.injEq, exists_eq_left']
    split
    case h_1 n read =>
      have small := (digits_eq_ok_iff.mp read).1
      simp [read, toNat_ofNat_eq_iff small]
    case h_2 refused => simp [refused]

theorem parse_eq_ok_iff_written {raw : String} {v : UInt64} :
    parse raw = .ok v ↔ Written raw v ∨ Signed raw v := by
  have text : ∀ (mark : String) (cs : List Char), raw.toList = mark.toList ++ cs ↔
      raw = mark ++ String.ofList cs := fun mark cs => by
    rw [← String.toList_inj, String.toList_append, String.toList_ofList]
  have bound : v.toNat < 2 ^ 64 := v.toNat_lt
  rw [parse_eq_ok_iff]
  constructor
  · rintro ⟨ds, marked, read⟩
    obtain ⟨mark, known, h⟩ := afterMark?_eq_some_iff.mp marked
    obtain unsigned | ⟨cs, nonempty, rfl, plus⟩ := (digits_eq_ok_iff.mp read).2
    · exact .inl ⟨mark, known, ds, (text mark ds).mp h, unsigned⟩
    · refine .inr ⟨mark, known, cs, nonempty, ?_, plus⟩
      rw [(text mark _).mp h, ← String.toList_inj]
      simp
  · rintro (⟨mark, known, cs, rfl, value⟩ | ⟨mark, known, cs, nonempty, rfl, value⟩)
    · refine ⟨cs, afterMark?_eq_some_iff.mpr ⟨mark, known, (text mark cs).mpr rfl⟩, ?_⟩
      exact digits_eq_ok_iff.mpr ⟨bound, .inl value⟩
    · refine ⟨'+' :: cs, afterMark?_eq_some_iff.mpr ⟨mark, known, ?_⟩, ?_⟩
      · simp
      · exact digits_eq_ok_iff.mpr ⟨bound, .inr ⟨cs, nonempty, rfl, value⟩⟩

theorem kind_of_parse_eq_error {raw : String} {e : Error} (h : parse raw = .error e) :
    e.kind = .anomaly := by
  unfold parse at h
  split at h
  · cases h
    rfl
  · split at h
    · cases h
    · cases h
      rfl

theorem parse_eq_error_iff {raw : String} :
    (∃ e, parse raw = .error e ∧ e.kind = .anomaly) ↔ ∀ v, parse raw ≠ .ok v := by
  cases h : parse raw with
  | ok v => simp
  | error e => simp [kind_of_parse_eq_error h]

theorem written_render (n : UInt64) : Written (render n) n :=
  ⟨"0x", by simp [marks], Numeral.render 16 n.toNat, rfl,
    value?_eq_some_iff.mp (Numeral.value?_render (by decide) (by decide) n.toNat)⟩

/-- Marked digits are read if and only if they denote a number of 64 bits, and so they are with a
plus sign behind the mark. Every other text is an anomaly. What is written is read back. -/
theorem parse_eq_ok_iff_written_or_signed (raw : String) :
    (∀ v, parse raw = .ok v ↔ Written raw v ∨ Signed raw v) ∧
      ((∃ e, parse raw = .error e ∧ e.kind = .anomaly) ↔ ∀ v, ¬ (Written raw v ∨ Signed raw v)) ∧
        ∀ n, parse (render n) = .ok n := by
  refine ⟨fun v => parse_eq_ok_iff_written, ?_, fun n => ?rendered⟩
  case rendered => exact parse_eq_ok_iff_written.mpr (.inl (written_render n))
  simp only [parse_eq_error_iff, ne_eq, parse_eq_ok_iff_written]

/-- The sign is no digit, and yet the text is read as five. -/
theorem not_written_of_plus : ¬ (∀ v, parse "0x+5" = .ok v ↔ Written "0x+5" v) := by
  intro exact
  have read : parse "0x+5" = .ok 5 := rfl
  obtain ⟨mark, known, cs, text, value⟩ := (exact 5).mp read
  have digits : cs = ['+', '5'] := by
    have chars := congrArg String.toList text
    simp only [marks, List.mem_cons, List.not_mem_nil, or_false] at known
    rcases known with rfl | rfl <;> simp at chars
    exact chars.symm
  rw [digits, ← value?_eq_some_iff] at value
  cases value

end BridgeNotifier.Quantity
