import BridgeNotifier.Estimate
import BridgeNotifier.Proofs.Samples
set_option autoImplicit false

namespace BridgeNotifier

/-- The whole number nearest to `a / b`, of two equally near ones the higher one. -/
def Nearest (a b r : Int) : Prop :=
  2 * b * r - b ≤ 2 * a ∧ 2 * a < 2 * b * r + b

instance (a b r : Int) : Decidable (Nearest a b r) :=
  inferInstanceAs (Decidable (_ ∧ _))

theorem Nearest.le {a b r r' : Int} (positive : 0 < b) (h : Nearest a b r) (h' : Nearest a b r') :
    r ≤ r' := by
  by_contra more
  have apart : 2 * b * (r' + 1) ≤ 2 * b * r :=
    Int.mul_le_mul_of_nonneg_left (by omega) (by omega)
  have lower := h.1
  have upper := h'.2
  rw [Int.mul_add] at apart
  omega

theorem Nearest.unique {a b r r' : Int} (positive : 0 < b) (h : Nearest a b r)
    (h' : Nearest a b r') : r = r' :=
  Int.le_antisymm (h.le positive h') (h'.le positive h)

theorem nearest_halfUp {b : Nat} (positive : 0 < b) (a : Nat) : Nearest a b (halfUp a b) := by
  have quotient : 2 * b * halfUp a b + (2 * a + b) % (2 * b) = 2 * a + b := Nat.div_add_mod ..
  have rest : (2 * a + b) % (2 * b) < 2 * b := Nat.mod_lt _ (by omega)
  have quotient' : 2 * (b : Int) * halfUp a b + ((2 * a + b) % (2 * b) : Nat) = 2 * a + b := by
    exact_mod_cast quotient
  constructor <;> omega

theorem nearest_iff {a b r : Nat} (positive : 0 < b) : Nearest a b r ↔ r = halfUp a b := by
  have exact := nearest_halfUp positive a
  have positive' : (0 : Int) < b := by omega
  constructor
  · intro h
    exact Int.ofNat.inj (h.unique positive' exact)
  · rintro rfl
    exact exact

theorem floored_sub (a b : Nat) : max 0 ((a : Int) - b) = ((a - b : Nat) : Int) := by
  omega

theorem averageInterval_eq_some_nearest_iff {newest oldest intervals : UInt64}
    (counted : 1 ≤ intervals) (r : UInt64) :
    averageInterval newest oldest intervals = some r ↔
      newest.toNat - oldest.toNat + intervals.toNat / 2 < 2 ^ 64 ∧
        Nearest (max 0 (newest.toNat - oldest.toNat)) intervals.toNat r.toNat := by
  have positive : 0 < intervals.toNat := UInt64.le_iff_toNat_le.1 counted
  rw [averageInterval_eq_some_iff, floored_sub, nearest_iff positive]

/-- The minutes from some seconds to others, a half rounded up: not below zero, and at most a 32-bit
word. -/
def minutesBetween (elapsed average : Int) : Int :=
  min 0xFFFFFFFF ((max 0 (average - elapsed) + 30) / 60)

theorem remainingMinutes_eq_none_iff {average elapsed : UInt64} :
    remainingMinutes average elapsed = none ↔ 2 ^ 64 ≤ average.toNat - elapsed.toNat + 30 := by
  have half : (30 : UInt64).toNat = 30 := rfl
  rw [remainingMinutes, Option.map_eq_none_iff, Word.add?_eq_none_iff, Word.toNat_subFloored, half]
  exact Iff.rfl

theorem toNat_remainingMinutes {average elapsed : UInt64} {m : UInt32}
    (h : remainingMinutes average elapsed = some m) :
    m.toNat = min ((average.toNat - elapsed.toNat + 30) / 60) 0xFFFFFFFF := by
  have half : (30 : UInt64).toNat = 30 := rfl
  have minute : (60 : UInt64).toNat = 60 := rfl
  obtain ⟨sum, added, rfl⟩ := Option.map_eq_some_iff.1 h
  rw [Word.add?_eq_some_iff, Word.toNat_subFloored, half] at added
  rw [Word.toNat_narrowCapped, UInt64.toNat_div, added, minute]

theorem exists_remainingMinutes {average elapsed : UInt64}
    (fits : average.toNat - elapsed.toNat + 30 < 2 ^ 64) :
    ∃ m, remainingMinutes average elapsed = some m :=
  Option.ne_none_iff_exists'.1 fun overflows =>
    absurd (remainingMinutes_eq_none_iff.1 overflows) (Nat.not_le_of_lt fits)

theorem fits_of_remainingMinutes {average elapsed : UInt64} {m : UInt32}
    (h : remainingMinutes average elapsed = some m) :
    average.toNat - elapsed.toNat + 30 < 2 ^ 64 := by
  by_contra overflows
  rw [remainingMinutes_eq_none_iff.2 (Nat.le_of_not_lt overflows)] at h
  cases h

theorem remainingMinutes_eq_some_iff {average elapsed : UInt64} (m : UInt32) :
    remainingMinutes average elapsed = some m ↔
      average.toNat - elapsed.toNat + 30 < 2 ^ 64 ∧
        (m.toNat : Int) = minutesBetween elapsed.toNat average.toNat := by
  rw [minutesBetween]
  constructor
  · intro h
    have left := toNat_remainingMinutes h
    exact ⟨fits_of_remainingMinutes h, by omega⟩
  · rintro ⟨fits, exact⟩
    obtain ⟨m', h⟩ := exists_remainingMinutes fits
    have left := toNat_remainingMinutes h
    obtain rfl : m' = m := UInt32.toNat_inj.1 (by omega)
    exact h

theorem remainingMinutes_le {average elapsed average' elapsed' : UInt64} {m : UInt32}
    (h : remainingMinutes average elapsed = some m) (lower : average' ≤ average)
    (later : elapsed ≤ elapsed') : ∃ m', remainingMinutes average' elapsed' = some m' ∧ m' ≤ m := by
  have fits := fits_of_remainingMinutes h
  have left := toNat_remainingMinutes h
  rw [UInt64.le_iff_toNat_le] at lower later
  have fits' : average'.toNat - elapsed'.toNat + 30 < 2 ^ 64 := by omega
  obtain ⟨m', h'⟩ := exists_remainingMinutes fits'
  have left' := toNat_remainingMinutes h'
  exact ⟨m', h', UInt32.le_iff_toNat_le.2 (by omega)⟩

/-- The average interval is the nearest whole number, and the minutes left are the minutes rounded
and capped, if and only if no sum is too large for a word; otherwise there is neither. Minutes fall
with the time that passed and grow with the average. -/
theorem rounded_exactly_iff {intervals : UInt64} (counted : 1 ≤ intervals)
    (newest oldest average elapsed : UInt64) :
    (∃! r : Int, Nearest (max 0 (newest.toNat - oldest.toNat)) intervals.toNat r) ∧
    (∀ r, averageInterval newest oldest intervals = some r ↔
      newest.toNat - oldest.toNat + intervals.toNat / 2 < 2 ^ 64 ∧
        Nearest (max 0 (newest.toNat - oldest.toNat)) intervals.toNat r.toNat) ∧
    (averageInterval newest oldest intervals = none ↔
      2 ^ 64 ≤ newest.toNat - oldest.toNat + intervals.toNat / 2) ∧
    (∀ m, remainingMinutes average elapsed = some m ↔
      average.toNat - elapsed.toNat + 30 < 2 ^ 64 ∧
        (m.toNat : Int) = minutesBetween elapsed.toNat average.toNat) ∧
    (remainingMinutes average elapsed = none ↔ 2 ^ 64 ≤ average.toNat - elapsed.toNat + 30) ∧
    ∀ m, remainingMinutes average elapsed = some m →
      (∀ later, elapsed ≤ later → ∃ m', remainingMinutes average later = some m' ∧ m' ≤ m) ∧
      ∀ lower, lower ≤ average → ∃ m', remainingMinutes lower elapsed = some m' ∧ m' ≤ m := by
  refine ⟨?_, averageInterval_eq_some_nearest_iff counted, averageInterval_eq_none_iff,
    remainingMinutes_eq_some_iff, remainingMinutes_eq_none_iff, fun m h => ⟨?_, ?_⟩⟩
  · have positive : 0 < intervals.toNat := UInt64.le_iff_toNat_le.1 counted
    have exact := nearest_halfUp positive (newest.toNat - oldest.toNat)
    rw [floored_sub]
    exact ⟨_, exact, fun r h => h.unique (by omega) exact⟩
  · exact fun later after => remainingMinutes_le h (UInt64.le_refl _) after
  · exact fun lower below => remainingMinutes_le h below (UInt64.le_refl _)

/-- The largest sums that fit. -/
theorem rounded_exactly_largestSums :
    (1 : UInt64) ≤ 2 ∧
    averageInterval 0xFFFFFFFFFFFFFFFF 1 2 = some 0x7FFFFFFFFFFFFFFF ∧
    remainingMinutes 0xFFFFFFFFFFFFFFE1 0 = some 0xFFFFFFFF ∧
    (∃ m, remainingMinutes 0xFFFFFFFFFFFFFFE1 1 = some m ∧ m ≤ 0xFFFFFFFF) ∧
    ∃ m, remainingMinutes 600 0 = some m ∧ m ≤ 0xFFFFFFFF := by
  have two : (1 : UInt64) ≤ 2 := by decide
  obtain ⟨-, interval, -, minutes, -, falls⟩ := rounded_exactly_iff two
    0xFFFFFFFFFFFFFFFF 1 0xFFFFFFFFFFFFFFE1 0
  have longest := (minutes 0xFFFFFFFF).2 (by decide)
  obtain ⟨later, lower⟩ := falls _ longest
  exact ⟨two, (interval _).2 (by decide), longest, later 1 (by decide), lower 600 (by decide)⟩

/-- The longest span over two intervals has no average, and the longest wait no minutes. -/
theorem not_rounded_exactly :
    (¬ ∀ newest oldest intervals : UInt64, 1 ≤ intervals →
      ∃ r, averageInterval newest oldest intervals = some r ∧
        Nearest (max 0 (newest.toNat - oldest.toNat)) intervals.toNat r.toNat) ∧
    ¬ ∀ average elapsed : UInt64, ∃ m, remainingMinutes average elapsed = some m ∧
      (m.toNat : Int) = minutesBetween elapsed.toNat average.toNat := by
  refine ⟨fun all => ?_, fun all => ?_⟩
  · obtain ⟨r, answered, -⟩ := all 0xFFFFFFFFFFFFFFFF 0 2 (by decide)
    cases answered
  · obtain ⟨m, answered, -⟩ := all 0xFFFFFFFFFFFFFFFF 0
    cases answered

end BridgeNotifier
