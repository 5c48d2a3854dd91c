import BridgeNotifier.Text.Numeral
set_option autoImplicit false

namespace BridgeNotifier.Text.Numeral

theorem isDigit_digit {d : Nat} (h : d < 10) : (digit d).isDigit = true := by
  have all : ∀ d, d < 10 → (digit d).isDigit = true := by decide
  exact all d h

theorem digit_ne_zero {d : Nat} (pos : 0 < d) (h : d < 10) : digit d ≠ '0' := by
  have all : ∀ d, d < 10 → 0 < d → digit d ≠ '0' := by decide
  exact all d h pos

theorem render_of_lt {n : Nat} (h : n < 10) : render 10 n = [digit n] := by
  rw [render, dif_pos (.inl h)]

theorem render_of_le {n : Nat} (h : 10 ≤ n) :
    render 10 n = render 10 (n / 10) ++ [digit (n % 10)] := by
  rw [render, dif_neg (by omega)]

theorem value?_decimal (n : Nat) : value? 10 (render 10 n) = some n :=
  value?_render (by decide) (by decide) n

theorem decimal_inj {m n : Nat} : decimal m = decimal n ↔ m = n := by
  constructor
  · intro same
    have digits : render 10 m = render 10 n := String.ofList_injective same
    have read : value? 10 (render 10 m) = some n := by rw [digits, value?_decimal]
    rw [value?_decimal] at read
    exact Option.some.inj read
  · rintro rfl
    rfl

theorem isDigit_of_mem_render (n : Nat) : ∀ c ∈ render 10 n, c.isDigit = true := by
  induction n using Nat.strongRecOn with
  | ind n ih =>
    intro c hc
    by_cases small : n < 10
    · rw [render_of_lt small, List.mem_singleton] at hc
      subst hc
      exact isDigit_digit small
    · rw [render_of_le (by omega), List.mem_append, List.mem_singleton] at hc
      rcases hc with front | last
      · exact ih (n / 10) (by omega) c front
      · subst last
        exact isDigit_digit (by omega)

theorem head?_render (n : Nat) : (render 10 n).length = 1 ∨ (render 10 n).head? ≠ some '0' := by
  have positive : ∀ n, 0 < n → (render 10 n).head? ≠ some '0' := by
    intro n
    induction n using Nat.strongRecOn with
    | ind n ih =>
      intro pos
      by_cases small : n < 10
      · rw [render_of_lt small]
        simpa using digit_ne_zero pos small
      · rw [render_of_le (by omega), List.head?_append,
          Option.or_of_isSome (List.isSome_head?.2 (render_ne_nil 10 _))]
        exact ih (n / 10) (by omega) (by omega)
  by_cases zero : n = 0
  · subst zero
    exact .inl (by rw [render_of_lt (by decide)]; rfl)
  · exact .inr (positive n (by omega))

end BridgeNotifier.Text.Numeral
