import BridgeNotifier.Proofs.Decimals
import BridgeNotifier.Proofs.Deliveries
import Mathlib.Algebra.Group.Nat.Defs
set_option autoImplicit false

namespace BridgeNotifier

theorem globalIndex_inj {mainLeg mainLeg' : Bool} {rollup rollup' count count' : UInt32} :
    globalIndex mainLeg rollup count = globalIndex mainLeg' rollup' count' ↔
      mainLeg = mainLeg' ∧ rollup = rollup' ∧ count = count' := by
  constructor
  · intro same
    have leg := congrArg (Nat.testBit · 64) same
    have rollups := congrArg (· / 0x100000000 % 0x100000000) same
    have counts := congrArg (· % 0x100000000) same
    simp only [testBit_globalIndex, globalIndex_div, globalIndex_mod, UInt32.toNat_inj]
      at leg rollups counts
    exact ⟨leg, rollups, counts⟩
  · rintro ⟨rfl, rfl, rfl⟩
    rfl

/-- The number tells where a deposit stands in the exit tree. Rollups are numbered from one on, and
zero counts as the first of them. -/
structure Deposit.StandsAt (d : Deposit) (rollupId : UInt32) (index : Nat) : Prop where
  bounded : index < 2 ^ 65
  leg : index.testBit 64 = d.fromMain
  rollup : index / 2 ^ 32 % 2 ^ 32 = rollupId.toNat - 1
  count : index % 2 ^ 32 = d.count.toNat

namespace Notice

def index (n : Notice) (rollupId : UInt32) : Nat :=
  globalIndex n.deposit.fromMain (if rollupId = 0 then 0 else rollupId - 1) n.deposit.count

variable {m n : Notice} {rollupId : UInt32}

theorem update_globalIndex (n : Notice) (chains : ChainIds) (minutes : UInt32) :
    (n.update chains rollupId minutes).globalIndex =
      some (Text.Numeral.decimal (n.index rollupId)) := by
  obtain ⟨deposit, status, claim⟩ := n
  cases status <;> rfl

theorem standsAt_index (n : Notice) (rollupId : UInt32) :
    n.deposit.StandsAt rollupId (n.index rollupId) := by
  have before : (if rollupId = 0 then 0 else rollupId - 1).toNat = rollupId.toNat - 1 := by
    split
    · rename_i zero
      rw [zero]
      rfl
    · rename_i other
      have positive : rollupId.toNat ≠ 0 := fun zero => other (UInt32.toNat_inj.1 zero)
      have one : (1 : UInt32).toNat = 1 := rfl
      have within : (1 : UInt32) ≤ rollupId := UInt32.le_iff_toNat_le.2 (by omega)
      rw [UInt32.toNat_sub_of_le _ _ within, one]
  exact ⟨globalIndex_lt .., testBit_globalIndex .., (globalIndex_div ..).trans before,
    globalIndex_mod ..⟩

theorem index_eq_iff : m.index rollupId = n.index rollupId ↔
    m.deposit.fromMain = n.deposit.fromMain ∧ m.deposit.count = n.deposit.count := by
  rw [index, index, globalIndex_inj]
  exact ⟨fun ⟨leg, _, count⟩ => ⟨leg, count⟩, fun ⟨leg, count⟩ => ⟨leg, rfl, count⟩⟩

end Notice

namespace Dispatcher

open Surroundings Text

variable {d : Dispatcher} {m n : Notice} {u v : TransferUpdate} {es es' : List Event}

/-- Two updates of one dispatcher have the same global index if and only if their deposits agree on
the leg and on the count. The index is written in digits, and the number that they denote tells both
and the rollup. -/
theorem global_indices_tell (first : (d.update m).Leads anyhow () es (.done (some u)) ())
    (second : (d.update n).Leads anyhow () es' (.done (some v)) ()) :
    (u.globalIndex = v.globalIndex ↔
      m.deposit.fromMain = n.deposit.fromMain ∧ m.deposit.count = n.deposit.count) ∧
    ∃ text index, u.globalIndex = some text ∧ (∀ c ∈ text.toList, c.isDigit = true) ∧
      Numeral.value? 10 text.toList = some index ∧ m.deposit.StandsAt d.rollupId index := by
  obtain ⟨chains, minutes, rfl⟩ := (updates_of_leads first).eq_update
  obtain ⟨chains', minutes', rfl⟩ := (updates_of_leads second).eq_update
  rw [m.update_globalIndex, n.update_globalIndex, Option.some.injEq, Numeral.decimal_inj,
    Notice.index_eq_iff]
  have digits : (Numeral.decimal (m.index d.rollupId)).toList =
      Numeral.render 10 (m.index d.rollupId) := String.toList_ofList
  refine ⟨.rfl, _, m.index d.rollupId, rfl, ?_, ?_, m.standsAt_index d.rollupId⟩
  · rw [digits]
    exact Numeral.isDigit_of_mem_render _
  · rw [digits]
    exact Numeral.value?_decimal _

def verified (network count : UInt32) : Notice :=
  ⟨{ Setup.mainDeposit count 20 with network }, .verified, none⟩

def lastRollup : Dispatcher :=
  ⟨true, "", 0xFFFFFFFF, ⟨[], 0⟩, "", .commitDefault⟩

/-- The highest index on the rollup leg, and the lowest one on the main leg. -/
theorem global_indices_tell_legs : ∃ u v es es',
    (lastRollup.update (verified 1 0xFFFFFFFF)).Leads anyhow () es (.done (some u)) () ∧
    (lastRollup.update (verified 0 0)).Leads anyhow () es' (.done (some v)) () ∧
    u.globalIndex ≠ v.globalIndex ∧
    ∃ text index, u.globalIndex = some text ∧ Numeral.value? 10 text.toList = some index ∧
      index % 2 ^ 32 = 0xFFFFFFFF ∧ index / 2 ^ 32 % 2 ^ 32 = 0xFFFFFFFE := by
  have first : (lastRollup.update (verified 1 0xFFFFFFFF)).Leads anyhow ()
      [⟨.chainIds, .empty⟩] (.done (some _)) () := .ask trivial (.refl _ _)
  have second : (lastRollup.update (verified 0 0)).Leads anyhow ()
      [⟨.chainIds, .empty⟩] (.done (some _)) () := .ask trivial (.refl _ _)
  obtain ⟨alike, text, index, written, -, read, stands⟩ := global_indices_tell first second
  refine ⟨_, _, _, _, first, second, fun same => ?_, text, index, written, read, stands.count,
    stands.rollup⟩
  exact absurd (alike.1 same).1 (by decide)

end Dispatcher
end BridgeNotifier
