import BridgeNotifier.Proofs.Ownership
import BridgeNotifier.Proofs.Replay
import BridgeNotifier.Proofs.Scanning
set_option autoImplicit false

namespace BridgeNotifier

/-- The ranges are disjoint, and together they are the blocks from one up to the ceiling. -/
structure Tiles (ranges : List BlockRange) (ceiling : Option UInt64) : Prop where
  disjoint : ranges.Pairwise fun x y => ∀ b ∈ x, b ∉ y
  covered : ∀ b, (∃ x ∈ ranges, b ∈ x) ↔ ∃ c, ceiling = some c ∧ 1 ≤ b ∧ b ≤ c

namespace Tiles

theorem none : Tiles [] none :=
  ⟨.nil, fun b => by simp⟩

variable {ranges : List BlockRange} {ceiling : Option UInt64} {high : UInt64}

theorem mem_iff (h : Tiles ranges ceiling) (b : UInt64) :
    (∃ x ∈ ranges, b ∈ x) ↔ 1 ≤ b ∧ b ≤ ceiling.getD 0 := by
  rw [h.covered b]
  cases ceiling with
  | none =>
    refine ⟨fun ⟨c, hc, _⟩ => (nomatch hc), fun ⟨h1, h0⟩ => ?_⟩
    have hb := UInt64.le_trans h1 h0
    exact absurd hb (by decide)
  | some c => simp

theorem extend (h : Tiles ranges ceiling) (hlt : ceiling.getD 0 < high) :
    Tiles (ranges ++ [⟨ceiling.getD 0 + 1, high⟩]) (some high) := by
  have hlow := Word.toNat_succ_of_lt hlt
  have hlt' : (ceiling.getD 0).toNat < high.toNat := hlt
  have mem : ∀ b : UInt64, b ∈ (⟨ceiling.getD 0 + 1, high⟩ : BlockRange) ↔
      (ceiling.getD 0).toNat < b.toNat ∧ b.toNat ≤ high.toNat := by
    intro b
    change ceiling.getD 0 + 1 ≤ b ∧ b ≤ high ↔ _
    rw [UInt64.le_iff_toNat_le, UInt64.le_iff_toNat_le, hlow, Nat.succ_le_iff]
  have one : ∀ b : UInt64, 1 ≤ b ↔ 1 ≤ b.toNat := fun b => UInt64.le_iff_toNat_le
  have below : ∀ b, (∃ x ∈ ranges, b ∈ x) ↔ 1 ≤ b.toNat ∧ b.toNat ≤ (ceiling.getD 0).toNat := by
    intro b
    rw [h.mem_iff b, one, UInt64.le_iff_toNat_le]
  refine ⟨?_, fun b => ?_⟩
  · rw [List.pairwise_append]
    refine ⟨h.disjoint, .cons (by simp) .nil, fun x hx y hy b hb hby => ?_⟩
    obtain rfl := List.mem_singleton.1 hy
    have hle := ((below b).1 ⟨x, hx, hb⟩).2
    have hgt := ((mem b).1 hby).1
    omega
  · have split : (∃ x ∈ ranges ++ [⟨ceiling.getD 0 + 1, high⟩], b ∈ x) ↔
        (∃ x ∈ ranges, b ∈ x) ∨ b ∈ (⟨ceiling.getD 0 + 1, high⟩ : BlockRange) := by
      simp only [List.mem_append, List.mem_singleton, or_and_right, exists_or, exists_eq_left]
    rw [split, below b, mem b]
    have target : (∃ c, some high = some c ∧ 1 ≤ b ∧ b ≤ c) ↔
        1 ≤ b.toNat ∧ b.toNat ≤ high.toNat := by
      simp only [Option.some.injEq, exists_eq_left', one, UInt64.le_iff_toNat_le]
    rw [target]
    omega

end Tiles

namespace Scanning

/-- The scans that are settled: those completed before the last write of a key. -/
def settling (key : String) (o : Scanning) (settled : List BlockRange) : Event → List BlockRange
  | ⟨.store (.setInt k _), .ok _⟩ => if k = key then o.completed else settled
  | _ => settled

theorem settling_apart (key : String) : Apart (settling key) where
  quiet := by
    rintro o l ⟨r, x⟩ hq
    cases r with
    | store c =>
      cases c with
      | setInt k v =>
        cases x with
        | ok u => cases hq
        | error e => rfl
      | _ => rfl
    | _ => rfl
  records _ _ _ _ := rfl
  launch _ _ _ _ := rfl

end Scanning

def Tick.settled (key : String) (t : Tick) : List BlockRange :=
  (t.events.foldl (Scanning.alongside (Scanning.settling key)) (.start, [])).2

namespace Setup
open Routine Surroundings Scanning

variable (s : Setup) (r : Role)

def settledScans (ts : List Tick) : List BlockRange :=
  (ts.filter (·.task = .batch r)).flatMap (Tick.settled (s.key r.ceiling))

variable {s r}

def Tiled (s : Setup) (r : Role) (before : List BlockRange)
    (w : (String → Option UInt64) × Scanning × List BlockRange) : Prop :=
  Tiles (before ++ w.2.2) (w.1 (s.key r.ceiling))

section Tiled

variable {before : List BlockRange} {f : String → Option UInt64} {key : String} {value : UInt64}
variable {w v : (String → Option UInt64) × Scanning × List BlockRange}

abbrev settlingScans (s : Setup) (r : Role) :
    Surroundings ((String → Option UInt64) × Scanning × List BlockRange) :=
  scanned (fun _ => True) (settling (s.key r.ceiling))

theorem settlingScans_shows : (settlingScans s r).Shows Prod.fst fun _ _ => True :=
  scanned_shows (settling_apart (s.key r.ceiling)) fun _ _ _ _ _ => trivial

theorem settled_of_ceiling
    (hv : settlingScans s r w ⟨.store (.setInt (s.key r.ceiling) value), .ok ()⟩ v) :
    v.2.2 = w.2.1.completed := by
  have hv' : v.2.2 = settling (s.key r.ceiling) w.2.1 w.2.2
      ⟨.store (.setInt (s.key r.ceiling) value), .ok ()⟩ := congrArg Prod.snd hv.2
  rw [hv', settling, if_pos rfl]

theorem tiled_of_other (hk : s.key r.ceiling ≠ key) (h : Tiled s r before w)
    (hv : settlingScans s r w ⟨.store (.setInt key value), .ok ()⟩ v) : Tiled s r before v := by
  have hsettled : v.2.2 = w.2.2 := by
    have hv' : v.2.2 = settling (s.key r.ceiling) w.2.1 w.2.2 ⟨.store (.setInt key value), .ok ()⟩ :=
      congrArg Prod.snd hv.2
    rw [hv', settling, if_neg hk.symm]
  rw [Tiled, settlingScans_shows.write hv, Function.update_of_ne hk _ _, hsettled]
  exact h

theorem ensures_sweepBatch_tiles (h : Tiles before (f (s.key r.ceiling))) :
    (s.sweepBatch r).Ensures (settlingScans s r) (Tiled s r before)
      (Contract.scanning fun _ _ => True) (fun _ _ => True) (f, .start, []) fun _ _ => True := by
  have hS : (settlingScans s r).Shows Prod.fst fun _ _ => True := settlingScans_shows
  have rest : ∀ {latest : UInt64} {w}, Tiled s r before w →
      Shows.Moves (settlingScans s r) Prod.fst (Tiled s r before) (s.key r.batch) latest w
        fun v => True ∧ ∀ average, Shows.Writes (settlingScans s r) (Tiled s r before)
          (s.estimator r).averageKey average v fun _ => True :=
    fun hw => Shows.moves_after_ceiling (Q := fun _ => True)
      (fun _ _ _ hk hw _ _ ht => ⟨tiled_of_other hk hw ht, tiled_of_other hk hw ht, trivial⟩)
      hw trivial
  have hI : Tiled s r before (f, .start, []) := by
    rw [Tiled, List.append_nil]
    exact h
  refine hS.ensures_sweepBatch hI trivial (fun latest newCeiling _ hlt => ?_)
    fun latest newCeiling _ hle => ?_
  · have hlow : (f (s.key r.ceiling)).getD 0 + 1 ≤ newCeiling := by
      rw [UInt64.le_iff_toNat_le, Word.toNat_succ_of_lt hlt]
      exact hlt
    refine Contract.scans_run hlow (.inl rfl) fun summary t ht hc => ?_
    -- until the ceiling is written the tiles are those from before this tick
    refine ⟨fun _ => rest ht, fun _ u hu => ?_⟩
    have kept : Tiled s r before u := by
      rw [Tiled, hS.write hu, Function.update_self, settled_of_ceiling hu, hc.completed]
      exact h.extend hlt
    exact ⟨kept, rest kept⟩
  · refine ⟨fun _ => rest hI, fun hlt => ?_⟩
    exact absurd hle (UInt64.not_le.2 hlt)

end Tiled

theorem tiles_tick {before : List BlockRange} {m n : Memory} {es : List Event}
    {p : Program (Except Error Outcome)} (h : Tiles before (m.ints (s.key r.ceiling)))
    (run : (s.tick (.batch r)).run.Leads shared m es p n) :
    Tiles (before ++ Tick.settled (s.key r.ceiling) ⟨.batch r, es, p.result?⟩)
      (n.ints (s.key r.ceiling)) := by
  have noted := ((run.map Memory.ints fun _ _ _ => numbers_of_shared).only fun _ _ => trivial).noted
    (alongside (settling (s.key r.ceiling))) (.start, [])
  have hI : Tiled s r before (m.ints, .start, []) := by
    rw [Tiled, List.append_nil]
    exact h
  have htick := settlingScans_shows.ensures_tick (t := .batch r) hI trivial
    (ensures_sweepBatch_tiles h)
  have kept := Program.Ensures.invariant htick
    (Contract.scanning_kept (settling_apart _) (fun _ _ _ _ _ => trivial) fun _ _ _ _ _ _ h => h)
    hI noted
  exact kept

/-- At every point of every history, the settled scans of a role are disjoint and cover the blocks
from one up to its stored ceiling, and no others. -/
theorem settledScans_tile {ts : List Tick} {m : Memory} (run : s.Runs shared .empty ts m) :
    Tiles (s.settledScans r ts) (m.ints (s.key r.ceiling)) := by
  induction run with
  | start => exact Tiles.none
  | @tick ts w u es p before t run ih =>
    by_cases ht : t = .batch r
    · subst ht
      have h := tiles_tick ih run
      simpa [settledScans, List.filter_append, List.flatMap_append] using h
    · have hk : s.key r.ceiling ∉ s.owned t :=
        s.key_not_mem_owned (by cases r <;> exact ht)
      have hts : s.settledScans r (ts ++ [⟨t, es, p.result?⟩]) = s.settledScans r ts := by
        simp [settledScans, List.filter_append, ht]
      rw [ints_of_not_owned run hk, hts]
      exact ih

open Simulation

/-- Batch 1 ends at block 5. Batch 2 ends at block 9, and its first tick loses the tables. -/
def twoBatches : List Turn :=
  [⟨.batch .commit, fun w =>
      { w with chain := { w.chain with committed := 1, lastBlocks := [(1, 5), (2, 9)] } }⟩,
    ⟨.batch .commit, fun w =>
      { w with
        chain := { w.chain with committed := 2 }
        records := { w.records with failing := true } }⟩,
    ⟨.batch .commit, fun w => { w with records := { w.records with failing := false } }⟩]

theorem settledScans_tile_twoBatches :
    plainSetup.settledScans .commit (play plainSetup 60 twoBatches quietWorld).1 =
      [⟨1, 5⟩, ⟨6, 9⟩] ∧
    Tiles (plainSetup.settledScans .commit (play plainSetup 60 twoBatches quietWorld).1)
      (some 9) := by
  have run := runs_play_shared plainSetup 60 twoBatches quietWorld (by simp [twoBatches])
  have tile := settledScans_tile (r := .commit) run
  have ceiling : (play plainSetup 60 twoBatches quietWorld).2.store.memory.ints
      (plainSetup.key Role.commit.ceiling) = some 9 := by decide +kernel
  rw [ceiling] at tile
  exact ⟨by decide +kernel, tile⟩

end Setup
end BridgeNotifier
