set_option autoImplicit false

namespace BridgeNotifier.Word

def largest : UInt64 := 0xFFFFFFFFFFFFFFFF

def addCapped (a b : UInt64) : UInt64 :=
  if a ≤ largest - b then a + b else largest

/-- The sum, if it fits. -/
def add? (a b : UInt64) : Option UInt64 :=
  if a ≤ largest - b then some (a + b) else none

def subFloored (a b : UInt64) : UInt64 :=
  if b ≤ a then a - b else 0

def sub? (a b : UInt64) : Option UInt64 :=
  if b ≤ a then some (a - b) else none

def word32? (n : Nat) : Option UInt32 :=
  if n < 0x100000000 then some (UInt32.ofNat n) else none

def word64? (n : Nat) : Option UInt64 :=
  if n < 0x10000000000000000 then some (UInt64.ofNat n) else none

def narrowCapped (a : UInt64) : UInt32 :=
  if a ≤ 0xFFFFFFFF then a.toUInt32 else 0xFFFFFFFF

theorem fits_iff {a b : UInt64} : a ≤ largest - b ↔ a.toNat + b.toNat < 0x10000000000000000 := by
  have hb := b.toNat_lt
  have hl : largest.toNat = 0xFFFFFFFFFFFFFFFF := rfl
  have hs : (largest - b).toNat = 0xFFFFFFFFFFFFFFFF - b.toNat := by
    rw [UInt64.toNat_sub_of_le _ _ (by rw [UInt64.le_iff_toNat_le, hl]; omega), hl]
  rw [UInt64.le_iff_toNat_le, hs]
  omega

theorem toNat_addCapped (a b : UInt64) :
    (addCapped a b).toNat = min (a.toNat + b.toNat) 0xFFFFFFFFFFFFFFFF := by
  have hl : largest.toNat = 0xFFFFFFFFFFFFFFFF := rfl
  rw [addCapped]
  split
  · rename_i h
    rw [fits_iff] at h
    rw [UInt64.toNat_add, Nat.mod_eq_of_lt (by omega), Nat.min_eq_left (by omega)]
  · rename_i h
    rw [fits_iff] at h
    rw [hl, Nat.min_eq_right (by omega)]

theorem add?_eq_some_iff {a b c : UInt64} : add? a b = some c ↔ c.toNat = a.toNat + b.toNat := by
  have hc := c.toNat_lt
  rw [add?]
  split
  · rename_i h
    rw [fits_iff] at h
    rw [Option.some.injEq, ← UInt64.toNat_inj, UInt64.toNat_add, Nat.mod_eq_of_lt (by omega), eq_comm]
  · rename_i h
    rw [fits_iff] at h
    simp only [reduceCtorEq, false_iff]
    omega

theorem add?_eq_none_iff {a b : UInt64} :
    add? a b = none ↔ 0x10000000000000000 ≤ a.toNat + b.toNat := by
  rw [add?, ← Nat.not_lt, ← fits_iff]
  split <;> simp_all

theorem toNat_subFloored (a b : UInt64) : (subFloored a b).toNat = a.toNat - b.toNat := by
  rw [subFloored]
  split
  · rename_i h
    exact UInt64.toNat_sub_of_le _ _ h
  · rename_i h
    rw [UInt64.le_iff_toNat_le] at h
    rw [UInt64.toNat_zero]
    omega

theorem sub?_eq_some_iff {a b c : UInt64} :
    sub? a b = some c ↔ b.toNat ≤ a.toNat ∧ c.toNat = a.toNat - b.toNat := by
  rw [sub?, ← UInt64.le_iff_toNat_le]
  split
  · rename_i h
    rw [← UInt64.toNat_sub_of_le _ _ h, UInt64.toNat_inj]
    simp [h, eq_comm]
  · rename_i h
    simp [h]

theorem toNat_narrowCapped (a : UInt64) :
    (narrowCapped a).toNat = min a.toNat 0xFFFFFFFF := by
  rw [narrowCapped]
  split
  · rename_i h
    have h' : a.toNat ≤ 0xFFFFFFFF := by simpa [UInt64.le_iff_toNat_le] using h
    rw [UInt64.toNat_toUInt32, Nat.mod_eq_of_lt (by omega), Nat.min_eq_left h']
  · rename_i h
    have h' : ¬ a.toNat ≤ 0xFFFFFFFF := by simpa [UInt64.le_iff_toNat_le] using h
    rw [Nat.min_eq_right (by omega)]
    rfl

end BridgeNotifier.Word
