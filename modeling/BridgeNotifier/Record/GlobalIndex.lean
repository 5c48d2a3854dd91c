set_option autoImplicit false

namespace BridgeNotifier

/-- The bit for the main leg, then the rollup, then the deposit count. -/
def globalIndex (mainLeg : Bool) (rollup count : UInt32) : Nat :=
  (if mainLeg then 0x10000000000000000 else 0) + rollup.toNat * 0x100000000 + count.toNat

theorem globalIndex_lt (mainLeg : Bool) (rollup count : UInt32) :
    globalIndex mainLeg rollup count < 0x20000000000000000 := by
  have := rollup.toNat_lt
  have := count.toNat_lt
  cases mainLeg with
  | false =>
    simp only [globalIndex, Bool.false_eq_true, if_false]
    omega
  | true =>
    simp only [globalIndex, if_true]
    omega

theorem globalIndex_mod (mainLeg : Bool) (rollup count : UInt32) :
    globalIndex mainLeg rollup count % 0x100000000 = count.toNat := by
  have := rollup.toNat_lt
  have := count.toNat_lt
  cases mainLeg with
  | false => simp [globalIndex]
  | true =>
    simp only [globalIndex, if_true]
    omega

theorem globalIndex_div (mainLeg : Bool) (rollup count : UInt32) :
    globalIndex mainLeg rollup count / 0x100000000 % 0x100000000 = rollup.toNat := by
  have := rollup.toNat_lt
  have := count.toNat_lt
  cases mainLeg with
  | false =>
    simp only [globalIndex, Bool.false_eq_true, if_false]
    omega
  | true =>
    simp only [globalIndex, if_true]
    omega

theorem testBit_globalIndex (mainLeg : Bool) (rollup count : UInt32) :
    (globalIndex mainLeg rollup count).testBit 64 = mainLeg := by
  have := rollup.toNat_lt
  have := count.toNat_lt
  rw [Nat.testBit_eq_decide_div_mod_eq]
  cases mainLeg with
  | false =>
    rw [decide_eq_false_iff_not]
    simp only [globalIndex, Bool.false_eq_true, if_false]
    omega
  | true =>
    rw [decide_eq_true_iff]
    simp only [globalIndex, if_true]
    omega

end BridgeNotifier
