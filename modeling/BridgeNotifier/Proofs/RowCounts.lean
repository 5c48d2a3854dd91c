import BridgeNotifier.Record.Row
import Mathlib.Algebra.Group.Int.Defs
set_option autoImplicit false

namespace BridgeNotifier

namespace DepositRow

structure Placed (row : DepositRow) : Prop where
  side : row.network = 0 ∨ row.network = 1
  counted : 0 ≤ row.depositCount

variable {d e : DepositRow}

theorem Placed.count_nonneg (hd : d.Placed) : 0 ≤ d.depositCount.toInt := by
  simpa [Int64.le_iff_toInt_le] using hd.counted

theorem Placed.toNat_count (hd : d.Placed) : (d.count.toNat : Int) = d.depositCount.toInt % 2 ^ 32 := by
  have nonneg := hd.count_nonneg
  have wraps : d.count.toNat = d.depositCount.toInt.toNat % 2 ^ 32 := UInt32.toNat_ofNat'
  omega

theorem Placed.count_eq_iff (hd : d.Placed) (he : e.Placed) :
    d.count = e.count ↔ d.depositCount.toInt % 2 ^ 32 = e.depositCount.toInt % 2 ^ 32 := by
  have left := hd.toNat_count
  have right := he.toNat_count
  rw [← UInt32.toNat_inj]
  omega

end DepositRow

namespace ClaimRow

/-- The row of a claim on the other side of the bridge, for the deposit of another row. -/
structure Claims (c : ClaimRow) (d : DepositRow) : Prop where
  opposite : c.network = 1 - d.network
  index : c.index = d.depositCount

variable {c : ClaimRow} {d e : DepositRow}

theorem Claims.originSide_eq (hd : d.Placed) (claims : c.Claims d) :
    c.originSide = d.toDeposit.network := by
  have claimed : c.originSide = if 0 < (1 - d.network).toInt then 0 else 1 := by
    rw [originSide, claims.opposite]
  have deposited : d.toDeposit.network = UInt32.ofNat d.network.toNatClampNeg := rfl
  rw [claimed, deposited]
  obtain side | side := hd.side
  · rw [side]
    decide
  · rw [side]
    decide

theorem Claims.toNat_count (hd : d.Placed) (claims : c.Claims d) :
    (c.count.toNat : Int) = min d.depositCount.toInt (2 ^ 32 - 1) := by
  have nonneg := hd.count_nonneg
  have capped : c.count.toNat = min c.index.toInt.toNat 0xFFFFFFFF % 2 ^ 32 := UInt32.toNat_ofNat'
  rw [claims.index] at capped
  omega

theorem Claims.count_eq_iff (hd : d.Placed) (claims : c.Claims d) :
    c.count = d.count ↔
      d.depositCount.toInt < 2 ^ 32 ∨ d.depositCount.toInt % 2 ^ 32 = 2 ^ 32 - 1 := by
  have nonneg := hd.count_nonneg
  have capped := claims.toNat_count hd
  have wraps := hd.toNat_count
  rw [← UInt32.toNat_inj]
  omega

/-- A claim always points to the network of its deposit, and to its count if and only if that fits
into 32 bits or wraps to the largest word. Two deposits keep apart if and only if their counts do
modulo `2 ^ 32`. -/
theorem deposit_named_iff (hd : d.Placed) (he : e.Placed) (claims : c.Claims d) :
    c.toClaim.originNetwork = d.toDeposit.network ∧
    (c.toClaim.depositCount = d.toDeposit.count ↔
      d.depositCount.toInt < 2 ^ 32 ∨ d.depositCount.toInt % 2 ^ 32 = 2 ^ 32 - 1) ∧
    (d.toDeposit.count = e.toDeposit.count ↔
      d.depositCount.toInt % 2 ^ 32 = e.depositCount.toInt % 2 ^ 32) :=
  ⟨claims.originSide_eq hd, claims.count_eq_iff hd, hd.count_eq_iff he⟩

def deposited (count : Int64) : DepositRow :=
  ⟨1, 0, 0, 0, "0x00", "5", 1, "0xabc", 50, count, "0x01", false, 1700000000000⟩

def claimed (index : Int64) : ClaimRow :=
  ⟨4, 1, index, 0, "0x00", "5", "0xabc", 80, "0x02", 1700000060000⟩

theorem deposit_named_largestWord :
    (deposited 0x1FFFFFFFF).Placed ∧ (deposited 0xFFFFFFFF).Placed ∧
    (claimed 0x1FFFFFFFF).Claims (deposited 0x1FFFFFFFF) ∧
    (claimed 0x1FFFFFFFF).toClaim.depositCount = (deposited 0x1FFFFFFFF).toDeposit.count ∧
    (deposited 0x1FFFFFFFF).toDeposit.count = (deposited 0xFFFFFFFF).toDeposit.count := by
  have hd : (deposited 0x1FFFFFFFF).Placed := ⟨.inl rfl, by decide⟩
  have he : (deposited 0xFFFFFFFF).Placed := ⟨.inl rfl, by decide⟩
  have claims : (claimed 0x1FFFFFFFF).Claims (deposited 0x1FFFFFFFF) := ⟨by decide, rfl⟩
  obtain ⟨-, agree, merge⟩ := deposit_named_iff hd he claims
  exact ⟨hd, he, claims, agree.2 (.inr (by decide)), merge.2 (by decide)⟩

/-- A count of 33 bits: its claim names another count, and it is given that of another deposit. -/
theorem not_deposit_named_of_wide :
    (deposited 0x100000000).Placed ∧ (deposited 0).Placed ∧
    (claimed 0x100000000).Claims (deposited 0x100000000) ∧
    (claimed 0x100000000).toClaim.depositCount = 0xFFFFFFFF ∧
    (deposited 0x100000000).toDeposit.count = 0 ∧ (deposited 0).toDeposit.count = 0 :=
  ⟨⟨.inl rfl, by decide⟩, ⟨.inl rfl, by decide⟩, ⟨by decide, rfl⟩, by decide, by decide, by decide⟩

end ClaimRow
end BridgeNotifier
