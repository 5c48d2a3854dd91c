set_option autoImplicit false

namespace BridgeNotifier.Text.Numeral

def digit (d : Nat) : Char :=
  if d < 10 then Char.ofNat (48 + d) else Char.ofNat (87 + d)

/-- The value of an ASCII digit of the base; letters count in either case. -/
def digitValue? (base : Nat) (c : Char) : Option Nat :=
  let v :=
    if '0' ≤ c ∧ c ≤ '9' then c.toNat - 48
    else if 'a' ≤ c ∧ c ≤ 'z' then c.toNat - 87
    else if 'A' ≤ c ∧ c ≤ 'Z' then c.toNat - 55
    else base
  if v < base then some v else none

def render (base n : Nat) : List Char :=
  if _h : n < base ∨ base < 2 then [digit n]
  else render base (n / base) ++ [digit (n % base)]
termination_by n
decreasing_by exact Nat.div_lt_self (by omega) (by omega)

def extend? (base acc : Nat) : List Char → Option Nat
  | [] => some acc
  | c :: cs => (digitValue? base c).bind fun d => extend? base (acc * base + d) cs

def value? (base : Nat) (cs : List Char) : Option Nat :=
  extend? base 0 cs

theorem extend?_append (base acc : Nat) (xs ys : List Char) :
    extend? base acc (xs ++ ys) = (extend? base acc xs).bind fun n => extend? base n ys := by
  induction xs generalizing acc with
  | nil => rfl
  | cons c cs ih =>
    cases h : digitValue? base c with
    | none => simp [extend?, h]
    | some d => simp [extend?, h, ih]

theorem digitValue?_digit_of_le {base : Nat} (hb : base ≤ 36) {d : Nat} (hd : d < base) :
    digitValue? base (digit d) = some d := by
  have all : ∀ d, d < 36 →
      (let c := digit d
       (if '0' ≤ c ∧ c ≤ '9' then c.toNat - 48
        else if 'a' ≤ c ∧ c ≤ 'z' then c.toNat - 87
        else if 'A' ≤ c ∧ c ≤ 'Z' then c.toNat - 55
        else 36) = d) := by decide
  have h := all d (by omega)
  simp only [digitValue?]
  simp only at h
  split
  · rename_i h0; rw [if_pos h0] at h; rw [h, if_pos hd]
  · rename_i h0; rw [if_neg h0] at h
    split
    · rename_i h1; rw [if_pos h1] at h; rw [h, if_pos hd]
    · rename_i h1; rw [if_neg h1] at h
      split
      · rename_i h2; rw [if_pos h2] at h; rw [h, if_pos hd]
      · rename_i h2; rw [if_neg h2] at h; omega

theorem value?_render {base : Nat} (hl : 2 ≤ base) (hb : base ≤ 36) (n : Nat) :
    value? base (render base n) = some n := by
  rw [render]
  split
  · rename_i h
    simp [value?, extend?, digitValue?_digit_of_le hb (d := n) (by omega)]
  · rename_i h
    have ih := value?_render hl hb (n / base)
    have hm : n % base < base := Nat.mod_lt _ (by omega)
    rw [value?] at ih ⊢
    rw [extend?_append, ih]
    simp only [Option.bind_some, extend?, digitValue?_digit_of_le hb hm]
    rw [Nat.mul_comm, Nat.div_add_mod]
termination_by n
decreasing_by exact Nat.div_lt_self (by omega) (by omega)

theorem render_ne_nil (base n : Nat) : render base n ≠ [] := by
  rw [render]; split <;> simp

def decimal (n : Nat) : String :=
  String.ofList (render 10 n)

def hexadecimal (n : Nat) : String :=
  String.ofList (render 16 n)

end BridgeNotifier.Text.Numeral
