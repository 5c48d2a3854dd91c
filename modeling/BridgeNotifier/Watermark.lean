import BridgeNotifier.Word
set_option autoImplicit false

namespace BridgeNotifier
open Word

inductive Watermark where
  | head
  | scanned
  | committedBatch
  | committedCeiling
  | verifiedBatch
  | verifiedCeiling
  | depositFeed
  | claimFeed
  deriving DecidableEq, Repr

namespace Watermark

def all : List Watermark :=
  [.head, .scanned, .committedBatch, .committedCeiling, .verifiedBatch, .verifiedCeiling,
    .depositFeed, .claimFeed]

def name : Watermark → String
  | .head => "bridge_l1_block_num"
  | .scanned => "bridge_l1_scanned_block_num"
  | .committedBatch => "bridge_commit_batch_num"
  | .committedCeiling => "bridge_commit_max_block_num"
  | .verifiedBatch => "bridge_verify_batch_num"
  | .verifiedCeiling => "bridge_verify_max_block_num"
  | .depositFeed => "bridge_push_deposit_id"
  | .claimFeed => "bridge_push_claim_id"

theorem mem_all (w : Watermark) : w ∈ all := by
  cases w <;> decide

theorem name_injective {v w : Watermark} (h : v.name = w.name) : v = w := by
  revert h
  cases v <;> cases w <;> decide

end Watermark

inductive Role where
  | commit
  | verify
  deriving DecidableEq, Repr

namespace Role

def all : List Role := [.commit, .verify]

def name : Role → String
  | .commit => "commit"
  | .verify => "verify"

def batch : Role → Watermark
  | .commit => .committedBatch
  | .verify => .verifiedBatch

def ceiling : Role → Watermark
  | .commit => .committedCeiling
  | .verify => .verifiedCeiling

def windowName : Role → String
  | .commit => "bridge_commit_time_list"
  | .verify => "bridge_verify_time_list"

def averageName : Role → String
  | .commit => "bridge_avg_commit_duration"
  | .verify => "bridge_avg_verify_duration"

end Role

inductive Feed where
  | deposits
  | claims
  deriving DecidableEq, Repr

namespace Feed

def all : List Feed := [.deposits, .claims]

def name : Feed → String
  | .deposits => "DepositFeed"
  | .claims => "ClaimFeed"

def watermark : Feed → Watermark
  | .deposits => .depositFeed
  | .claims => .claimFeed

end Feed

/-- The name of a key under a namespace; without one it stands alone. -/
def storeKey (namespaceName name : String) : String :=
  if namespaceName = "" then name else namespaceName ++ ":" ++ name

structure BlockRange where
  low : UInt64
  high : UInt64
  deriving DecidableEq, Repr

instance : Membership UInt64 BlockRange where
  mem r b := r.low ≤ b ∧ b ≤ r.high

/-- The blocks to scan when the head moves. The scan starts after the last scanned block, or, when
none is known, at the first block that was not deep enough below the old head. -/
def matured? (oldHead newHead depth : UInt64) (lastScanned : Option UInt64) : Option BlockRange :=
  let low :=
    match lastScanned with
    | some scanned => addCapped scanned 1
    | none => subFloored (addCapped oldHead 1) depth
  (sub? newHead depth).bind fun high => if low ≤ high then some ⟨low, high⟩ else none

theorem le_of_matured? {oldHead newHead depth : UInt64} {lastScanned : Option UInt64}
    {r : BlockRange} (h : matured? oldHead newHead depth lastScanned = some r) :
    r.low ≤ r.high ∧ r.high.toNat + depth.toNat = newHead.toNat := by
  simp only [matured?, Option.bind_eq_some_iff] at h
  obtain ⟨high, hs, h⟩ := h
  rw [sub?_eq_some_iff] at hs
  have key : ∀ low : UInt64, (if low ≤ high then some (⟨low, high⟩ : BlockRange) else none) = some r →
      r.low ≤ r.high ∧ r.high.toNat + depth.toNat = newHead.toNat := by
    intro low hl
    split at hl
    · rename_i hle
      obtain rfl := Option.some.inj hl
      exact ⟨hle, show high.toNat + depth.toNat = newHead.toNat by omega⟩
    · exact absurd hl (by simp)
  exact key _ h

end BridgeNotifier
