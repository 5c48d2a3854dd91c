import BridgeNotifier.Proofs.DepthReload
set_option autoImplicit false

namespace BridgeNotifier

def BlockRange.Apart (r r' : BlockRange) : Prop :=
  ∀ b ∈ r, b ∉ r'

/-- Until a window goes beyond block zero, the first window that is block zero is the last one that
takes it in. -/
def LeavesZero : List Tick → Prop :=
  AtEach fun before t => ∀ a, t.advance? = some a →
    (∀ x ∈ advances before, x.stop ≤ x.depth) → (∃ x ∈ advances before, x.stop = x.depth) →
      a.depth ≤ a.stop → a.depth ≤ a.start

theorem pairwise_apart_concat (scans : List BlockRange) (window : Option BlockRange) :
    (scans ++ window.toList).Pairwise BlockRange.Apart ↔ scans.Pairwise BlockRange.Apart ∧
      ∀ b : UInt64, (∃ r ∈ scans, b ∈ r) → ¬ ∃ r, window = some r ∧ b ∈ r := by
  have last : window.toList.Pairwise BlockRange.Apart := by cases window <;> simp
  rw [List.pairwise_append, and_iff_right last]
  refine and_congr_right fun _ => ?_
  constructor
  · rintro h b ⟨r, hr, hb⟩ ⟨w, rfl, hw⟩
    exact h r hr w (by simp) b hb hw
  · intro h r hr w hw b hb hbw
    exact h b ⟨r, hr, hb⟩ ⟨w, by simpa using hw, hbw⟩

theorem countP_eq_zero_of_not_exists {scans : List BlockRange} {b : UInt64}
    (h : ¬ ∃ r ∈ scans, b ∈ r) : scans.countP (b ∈ ·) = 0 := by
  rw [List.countP_eq_zero]
  intro r hr hb
  exact h ⟨r, hr, by simpa using hb⟩

/-- What is known of the scans of a history, up to the scanned block. -/
structure Apartness (ts : List Tick) (scanned : Option UInt64) : Prop where
  below : ∀ high, scanned = some high → ∀ r ∈ maturityScans ts, ∀ b ∈ r, b ≤ high
  once : ∀ b ≠ 0, (maturityScans ts).countP (b ∈ ·) ≤ 1
  apart_iff : (maturityScans ts).Pairwise BlockRange.Apart ↔ LeavesZero ts

namespace Apartness

variable {ts : List Tick} {t : Tick} {a : Advance} {scanned : Option UInt64}

theorem nil : Apartness [] none where
  below _ h := nomatch h
  once _ _ := Nat.zero_le 1
  apart_iff := iff_of_true .nil (atEach_nil _)

theorem idle (h : Apartness ts scanned) (ht : t.advance? = none)
    (hs : maturityScans (ts ++ [t]) = maturityScans ts) : Apartness (ts ++ [t]) scanned := by
  have leaves : LeavesZero (ts ++ [t]) ↔ LeavesZero ts := atEach_idle ht
  refine ⟨?_, ?_, ?_⟩
  · rw [hs]
    exact h.below
  · rw [hs]
    exact h.once
  · rw [hs, leaves]
    exact h.apart_iff

theorem countP_window_le (ha : Advances ts t a scanned) {b : UInt64}
    (old : (maturityScans ts).countP (b ∈ ·) ≤ 1)
    (h : (∃ r ∈ maturityScans ts, b ∈ r) →
      ¬ ∃ r, matured? a.start a.stop a.depth scanned = some r ∧ b ∈ r) :
    (maturityScans (ts ++ [t])).countP (b ∈ ·) ≤ 1 := by
  classical
  rw [ha.scans, List.countP_append, ScannedOnce.countP_toList]
  by_cases hb : ∃ r ∈ maturityScans ts, b ∈ r
  · rw [if_neg (h hb)]
    exact old
  · rw [countP_eq_zero_of_not_exists hb]
    split <;> omega

theorem leavesZero_iff (ha : Advances ts t a scanned) : LeavesZero (ts ++ [t]) ↔ LeavesZero ts ∧
    ((∀ x ∈ advances ts, x.stop ≤ x.depth) → (∃ x ∈ advances ts, x.stop = x.depth) →
      a.depth ≤ a.stop → a.depth ≤ a.start) :=
  atEach_advance ha.advance

theorem shallow (h : Apartness ts none) (ha : Advances ts t a none) (hs : Shallow ts none) :
    Apartness (ts ++ [t]) (scannedAfter none (matured? a.start a.stop a.depth none)) := by
  have hzero : ∀ b : UInt64, b = 0 ↔ b.toNat = 0 := fun b => UInt64.toNat_inj.symm
  refine ⟨fun high hhigh r hr b hb => ?_, fun b hb => ?_, ?_⟩
  · cases hm : matured? a.start a.stop a.depth none with
    | none =>
      rw [hm] at hhigh
      cases hhigh
    | some w =>
      rw [hm, scannedAfter] at hhigh
      split at hhigh
      · obtain rfl := Option.some.inj hhigh
        rw [ha.scans, hm, Option.toList_some, List.mem_append, List.mem_singleton] at hr
        obtain hr | rfl := hr
        · have hb0 := ((hs.scans b).1 ⟨r, hr, hb⟩).1
          rw [hb0]
          exact UInt64.le_iff_toNat_le.2 (Nat.zero_le _)
        · exact hb.2
      · cases hhigh
  · exact countP_window_le ha (h.once b hb) fun hold => absurd ((hs.scans b).1 hold).1 hb
  · rw [ha.scans, pairwise_apart_concat, h.apart_iff, leavesZero_iff ha]
    refine and_congr_right fun _ => ?_
    have hdepth : a.depth ≤ a.stop ↔ a.depth.toNat ≤ a.stop.toNat := Iff.rfl
    have hstart : a.depth ≤ a.start ↔ a.depth.toNat ≤ a.start.toNat := Iff.rfl
    have z0 : (0 : UInt64).toNat = 0 := rfl
    simp only [hs.scans, ha.mem_window, hdepth, hstart]
    constructor
    · intro hall _ hx hle
      have h0 := hall 0 ⟨rfl, hx⟩
      rw [z0] at h0
      omega
    · rintro hall b ⟨rfl, hx⟩ ⟨hle, hlt⟩
      rw [z0] at hle hlt
      have hge := hall hs.depths hx (by omega)
      omega

theorem deep {high : UInt64} (h : Apartness ts (some high)) (ha : Advances ts t a (some high))
    (hd : Deep ts high) :
    Apartness (ts ++ [t])
      (scannedAfter (some high) (matured? a.start a.stop a.depth (some high))) := by
  have above : ∀ b : UInt64, (∃ r, matured? a.start a.stop a.depth (some high) = some r ∧ b ∈ r) →
      high < b := by
    intro b hb
    exact ((mem_matured?_iff ha.lt ha.depth).1 hb).2
  have disjoint : ∀ b : UInt64, (∃ r ∈ maturityScans ts, b ∈ r) →
      ¬ ∃ r, matured? a.start a.stop a.depth (some high) = some r ∧ b ∈ r := by
    rintro b ⟨r, hr, hb⟩ hw
    exact UInt64.not_lt.2 (h.below high rfl r hr b hb) (above b hw)
  refine ⟨fun high' hhigh r hr b hb => ?_, fun b hb => ?_, ?_⟩
  · rw [ha.scans, List.mem_append] at hr
    cases hm : matured? a.start a.stop a.depth (some high) with
    | none =>
      rw [hm] at hr hhigh
      obtain rfl := Option.some.inj hhigh
      exact h.below high rfl r (hr.resolve_right (by simp)) b hb
    | some w =>
      rw [hm, Option.toList_some, List.mem_singleton] at hr
      have hlow : high < w.high := by
        have hle := (matured?_eq_some_iff.1 hm).2.1
        exact above w.high ⟨w, hm, hle, UInt64.le_refl _⟩
      rw [hm, scannedAfter, Option.getD_some, if_pos hlow] at hhigh
      obtain rfl := Option.some.inj hhigh
      obtain hr | rfl := hr
      · exact UInt64.le_of_lt (UInt64.lt_of_le_of_lt (h.below high rfl r hr b hb) hlow)
      · exact hb.2
  · exact countP_window_le ha (h.once b hb) (disjoint b)
  · rw [ha.scans, pairwise_apart_concat, h.apart_iff, leavesZero_iff ha]
    refine and_congr_right fun _ => iff_of_true disjoint fun hall => ?_
    obtain ⟨x, hx, hlt⟩ := hd.depths
    exact absurd (hall x hx) (UInt64.not_le.2 hlt)

theorem advance (h : Apartness ts scanned) (ha : Advances ts t a scanned) (hk : Known ts scanned) :
    Apartness (ts ++ [t]) (scannedAfter scanned (matured? a.start a.stop a.depth scanned)) := by
  obtain hs | ⟨high, rfl, hd⟩ := hk
  · obtain rfl := hs.scanned
    exact h.shallow ha hs
  · exact h.deep ha hd

end Apartness

namespace Setup
open Surroundings

variable {s : Setup} {ts : List Tick} {m : Memory}

theorem runs_apartness (run : s.Runs (shared.only (Event.depthIn (1 ≤ ·))) .empty ts m)
    (calm : ∀ t ∈ ts, t.task = .maturity → t.Undisturbed) :
    Apartness ts (m.ints (s.key .scanned)) := by
  refine (runs_by_advances (K := fun ts scanned => Known ts scanned ∧ Apartness ts scanned)
    ⟨.inl shallow_nil, .nil⟩ ?_ ?_ run calm).2
  · intro ts t scanned hadv hs h
    exact ⟨h.1.idle hadv hs, h.2.idle hadv hs⟩
  · intro ts t a scanned ha h
    exact ⟨ha.known h.1, h.2.advance ha h.1⟩

/-- When no call of the maturity sweep fails, no block but block zero is scanned twice, whatever
depths it reads. Its scans have no block in common if and only if block zero is left alone once a
window was that block. -/
theorem maturityScans_apart_iff_leavesZero
    (run : s.Runs (shared.only (Event.depthIn (1 ≤ ·))) .empty ts m)
    (calm : ∀ t ∈ ts, t.task = .maturity → t.Undisturbed) :
    (∀ b ≠ 0, (maturityScans ts).countP (b ∈ ·) ≤ 1) ∧
      ((maturityScans ts).Pairwise BlockRange.Apart ↔ LeavesZero ts) :=
  ⟨(runs_apartness run calm).once, (runs_apartness run calm).apart_iff⟩

open Simulation

/-- The head reaches block 1 while one confirmation is asked for, and block 2 when two are. -/
def depthRaised : List Turn :=
  [⟨.maturity, fun w => { w with depth := ⟨1⟩, chain := { w.chain with head := 1 } }⟩,
    ⟨.maturity, fun w => { w with depth := ⟨2⟩, chain := { w.chain with head := 2 } }⟩]

theorem runs_depthRaised : plainSetup.Runs (shared.only (Event.depthIn (1 ≤ ·))) .empty
    (play plainSetup 60 depthRaised quietWorld).1
    (play plainSetup 60 depthRaised quietWorld).2.store.memory :=
  (runs_play_shared plainSetup 60 depthRaised quietWorld (by simp [depthRaised])).only
    (by decide +kernel)

theorem maturityScans_depthRaised :
    maturityScans (play plainSetup 60 depthRaised quietWorld).1 = [⟨0, 0⟩, ⟨0, 0⟩] := by
  decide +kernel

theorem not_apart_zero : ¬ [(⟨0, 0⟩ : BlockRange), ⟨0, 0⟩].Pairwise BlockRange.Apart := by
  intro h
  obtain ⟨hapart, -⟩ := List.pairwise_cons.1 h
  have hzero : (0 : UInt64) ∈ (⟨0, 0⟩ : BlockRange) := ⟨UInt64.le_refl 0, UInt64.le_refl 0⟩
  exact hapart ⟨0, 0⟩ (by simp) 0 hzero hzero

theorem maturityScans_apart_iff_leavesZero_depthRaised :
    (∀ b ≠ 0, (maturityScans (play plainSetup 60 depthRaised quietWorld).1).countP (b ∈ ·) ≤ 1) ∧
      ¬ LeavesZero (play plainSetup 60 depthRaised quietWorld).1 := by
  obtain ⟨once, iff⟩ := maturityScans_apart_iff_leavesZero runs_depthRaised (by decide +kernel)
  rw [maturityScans_depthRaised] at iff
  exact ⟨once, fun leaves => not_apart_zero (iff.2 leaves)⟩

theorem not_apart_of_depthRaised :
    ¬ ∀ (s : Setup) (ts : List Tick) (m : Memory),
      s.Runs (shared.only (Event.depthIn (1 ≤ ·))) .empty ts m →
      (∀ t ∈ ts, t.task = .maturity → t.Undisturbed) →
        (maturityScans ts).Pairwise BlockRange.Apart := by
  intro claim
  have apart := claim _ _ _ runs_depthRaised (by decide +kernel)
  rw [maturityScans_depthRaised] at apart
  exact not_apart_zero apart

end Setup
end BridgeNotifier
