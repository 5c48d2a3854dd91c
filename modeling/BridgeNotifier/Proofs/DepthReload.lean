import BridgeNotifier.Proofs.MaturityCoverage
set_option autoImplicit false

namespace BridgeNotifier

structure Advance where
  start : UInt64
  stop : UInt64
  depth : UInt64
  deriving DecidableEq, Repr

def Tick.advance? (t : Tick) : Option Advance :=
  match t.task, t.result, t.depth? with
  | .maturity, some (.ok (.advanced start stop _)), some depth => some ⟨start, stop, depth⟩
  | _, _, _ => none

theorem Tick.advance?_eq_some {t : Tick} {start stop dispatched depth : UInt64}
    (ht : t.task = .maturity) (hr : t.result = some (.ok (.advanced start stop dispatched)))
    (hd : t.depth? = some depth) : t.advance? = some ⟨start, stop, depth⟩ := by
  simp only [Tick.advance?, ht, hr, hd]

theorem Tick.advance?_eq_none {t : Tick} (ht : t.task ≠ .maturity) : t.advance? = none := by
  unfold Tick.advance?
  split
  · rename_i h _ _
    exact absurd h ht
  · rfl

def advances (ts : List Tick) : List Advance :=
  ts.filterMap Tick.advance?

def AtEach (P : List Tick → Tick → Prop) (ts : List Tick) : Prop :=
  ∀ before t after, ts = before ++ t :: after → P before t

/-- After every tick that moved the head, each block that is deep enough is in a completed scan. -/
def GapFree : List Tick → Prop :=
  AtEach fun before t => ∀ a, t.advance? = some a → ∀ b : UInt64,
    b.toNat + a.depth.toNat ≤ a.stop.toNat → ∃ r ∈ maturityScans (before ++ [t]), b ∈ r

/-- The first window that goes beyond block zero opens with block zero, or with the block after it
if that one was scanned before. -/
def OpensAtStart : List Tick → Prop :=
  AtEach fun before t => ∀ a, t.advance? = some a → a.depth < a.stop →
    (∀ x ∈ advances before, x.stop ≤ x.depth) →
      a.start < a.depth ∨ a.start = a.depth ∧ ∃ x ∈ advances before, x.stop = x.depth

theorem atEach_nil (P : List Tick → Tick → Prop) : AtEach P [] := by
  intro before t after h
  exact absurd h (by simp)

theorem atEach_concat {P : List Tick → Tick → Prop} {ts : List Tick} {t : Tick} :
    AtEach P (ts ++ [t]) ↔ AtEach P ts ∧ P ts t := by
  constructor
  · intro h
    refine ⟨fun before u after hts => h before u (after ++ [t]) ?_, h ts t [] rfl⟩
    rw [hts, List.append_assoc, List.cons_append]
  · rintro ⟨h, ht⟩ before u after hts
    obtain rfl | ⟨after', last, rfl⟩ := after.eq_nil_or_concat
    · obtain ⟨rfl, hu⟩ := List.append_inj' hts rfl
      obtain rfl := List.singleton_inj.1 hu
      exact ht
    · rw [List.concat_eq_append, ← List.cons_append, ← List.append_assoc] at hts
      obtain ⟨hts, -⟩ := List.append_inj' hts rfl
      exact h before u after' hts

theorem atEach_idle {P : List Tick → Tick → Advance → Prop} {ts : List Tick} {t : Tick}
    (h : t.advance? = none) :
    AtEach (fun before t => ∀ a, t.advance? = some a → P before t a) (ts ++ [t]) ↔
      AtEach (fun before t => ∀ a, t.advance? = some a → P before t a) ts := by
  refine atEach_concat.trans (and_iff_left ?_)
  intro a ha
  rw [h] at ha
  cases ha

theorem atEach_advance {P : List Tick → Tick → Advance → Prop} {ts : List Tick} {t : Tick}
    {a : Advance} (h : t.advance? = some a) :
    AtEach (fun before t => ∀ a, t.advance? = some a → P before t a) (ts ++ [t]) ↔
      AtEach (fun before t => ∀ a, t.advance? = some a → P before t a) ts ∧ P ts t a := by
  refine atEach_concat.trans (and_congr_right fun _ => ?_)
  constructor
  · exact fun hall => hall a h
  · rintro hall a' ha'
    obtain rfl := Option.some.inj (h.symm.trans ha')
    exact hall

theorem advances_concat (ts : List Tick) (t : Tick) :
    advances (ts ++ [t]) = advances ts ++ t.advance?.toList := by
  cases h : t.advance? <;> simp [advances, h]

structure Shallow (ts : List Tick) (scanned : Option UInt64) : Prop where
  scanned : scanned = none
  depths : ∀ x ∈ advances ts, x.stop ≤ x.depth
  scans : ∀ b, (∃ r ∈ maturityScans ts, b ∈ r) ↔ b = 0 ∧ ∃ x ∈ advances ts, x.stop = x.depth
  gapFree : GapFree ts
  opens : OpensAtStart ts

structure Deep (ts : List Tick) (high : UInt64) : Prop where
  depths : ∃ x ∈ advances ts, x.depth < x.stop
  gapFree_iff : GapFree ts ↔ OpensAtStart ts
  scans : GapFree ts → ∀ b ≤ high, ∃ r ∈ maturityScans ts, b ∈ r

def Known (ts : List Tick) (scanned : Option UInt64) : Prop :=
  Shallow ts scanned ∨ ∃ high, scanned = some high ∧ Deep ts high

theorem shallow_nil : Shallow [] none where
  scanned := rfl
  depths x hx := nomatch hx
  scans b := by simp [maturityScans, advances]
  gapFree := atEach_nil _
  opens := atEach_nil _

section Idle
variable {ts : List Tick} {t : Tick} {scanned : Option UInt64}

theorem Known.idle (h : Known ts scanned) (ht : t.advance? = none)
    (hs : maturityScans (ts ++ [t]) = maturityScans ts) : Known (ts ++ [t]) scanned := by
  have hadv : advances (ts ++ [t]) = advances ts := by
    rw [advances_concat, ht, Option.toList_none, List.append_nil]
  have hgap : GapFree (ts ++ [t]) ↔ GapFree ts := atEach_idle ht
  have hopens : OpensAtStart (ts ++ [t]) ↔ OpensAtStart ts := atEach_idle ht
  obtain h | ⟨high, rfl, h⟩ := h
  · refine .inl ⟨h.scanned, ?_, ?_, hgap.2 h.gapFree, hopens.2 h.opens⟩
    · rw [hadv]
      exact h.depths
    · rw [hadv, hs]
      exact h.scans
  · refine .inr ⟨high, rfl, ?_, ?_, ?_⟩
    · rw [hadv]
      exact h.depths
    · rw [hgap, hopens]
      exact h.gapFree_iff
    · rw [hgap, hs]
      exact h.scans

end Idle

section Move
variable {ts : List Tick} {t : Tick} {a : Advance} {scanned : Option UInt64}

structure Advances (ts : List Tick) (t : Tick) (a : Advance) (scanned : Option UInt64) : Prop where
  advance : t.advance? = some a
  lt : a.start < a.stop
  depth : 1 ≤ a.depth
  scans : maturityScans (ts ++ [t]) =
    maturityScans ts ++ (matured? a.start a.stop a.depth scanned).toList

namespace Advances

theorem advances_eq (h : Advances ts t a scanned) : advances (ts ++ [t]) = advances ts ++ [a] := by
  rw [advances_concat, h.advance, Option.toList_some]

theorem scans_iff (h : Advances ts t a scanned) (b : UInt64) :
    (∃ r ∈ maturityScans (ts ++ [t]), b ∈ r) ↔ (∃ r ∈ maturityScans ts, b ∈ r) ∨
      ∃ r, matured? a.start a.stop a.depth scanned = some r ∧ b ∈ r := by
  rw [h.scans]
  simp only [List.mem_append, Option.mem_toList, or_and_right, exists_or]

theorem gapFree_iff (h : Advances ts t a scanned) : GapFree (ts ++ [t]) ↔ GapFree ts ∧
    ∀ b : UInt64, b.toNat + a.depth.toNat ≤ a.stop.toNat →
      ∃ r ∈ maturityScans (ts ++ [t]), b ∈ r :=
  atEach_advance h.advance

theorem opens_iff (h : Advances ts t a scanned) : OpensAtStart (ts ++ [t]) ↔ OpensAtStart ts ∧
    (a.depth < a.stop → (∀ x ∈ advances ts, x.stop ≤ x.depth) →
      a.start < a.depth ∨ a.start = a.depth ∧ ∃ x ∈ advances ts, x.stop = x.depth) :=
  atEach_advance h.advance

theorem mem_window (h : Advances ts t a none) (b : UInt64) :
    (∃ r, matured? a.start a.stop a.depth none = some r ∧ b ∈ r) ↔
      b.toNat + a.depth.toNat ≤ a.stop.toNat ∧ a.start.toNat < b.toNat + a.depth.toNat :=
  mem_matured?_iff h.lt h.depth

theorem shallow (h : Advances ts t a none) (hs : Shallow ts none) (hle : a.stop ≤ a.depth) :
    Shallow (ts ++ [t]) (scannedAfter none (matured? a.start a.stop a.depth none)) := by
  have hlt : a.start.toNat < a.stop.toNat := h.lt
  have hle' : a.stop.toNat ≤ a.depth.toNat := hle
  have hzero : ∀ b : UInt64, b = 0 ↔ b.toNat = 0 := fun b => UInt64.toNat_inj.symm
  have heq : a.stop = a.depth ↔ a.stop.toNat = a.depth.toNat := UInt64.toNat_inj.symm
  have window : ∀ b : UInt64, (∃ r, matured? a.start a.stop a.depth none = some r ∧ b ∈ r) ↔
      b = 0 ∧ a.stop = a.depth := by
    intro b
    rw [h.mem_window b, hzero, heq]
    omega
  refine ⟨?_, ?_, fun b => ?_, ?_, ?_⟩
  · cases hm : matured? a.start a.stop a.depth none with
    | none => rfl
    | some r =>
      have hhigh := (matured?_eq_some_iff.1 hm).2.2
      refine if_neg fun hpos => ?_
      have hpos' : 0 < r.high.toNat := hpos
      omega
  · rw [h.advances_eq]
    intro x hx
    obtain hx | hx := List.mem_append.1 hx
    · exact hs.depths x hx
    · obtain rfl := List.mem_singleton.1 hx
      exact hle
  · rw [h.scans_iff b, hs.scans b, window b, h.advances_eq]
    simp only [List.mem_append, List.mem_singleton, or_and_right, exists_or, exists_eq_left, and_or_left]
  · refine h.gapFree_iff.2 ⟨hs.gapFree, fun b hb => (h.scans_iff b).2 (.inr ((window b).2 ?_))⟩
    rw [hzero, heq]
    omega
  · refine h.opens_iff.2 ⟨hs.opens, fun hd => ?_⟩
    have hd' : a.depth.toNat < a.stop.toNat := hd
    omega

/-- Whether a window beyond block zero leaves nothing out shows at blocks zero and one. -/
theorem covered_iff (h : Advances ts t a none) (hs : Shallow ts none) (hd : a.depth < a.stop) :
    (∀ b : UInt64, b.toNat + a.depth.toNat ≤ a.stop.toNat →
      ∃ r ∈ maturityScans (ts ++ [t]), b ∈ r) ↔
        (a.start < a.depth ∨ a.start = a.depth ∧ ∃ x ∈ advances ts, x.stop = x.depth) := by
  have hd' : a.depth.toNat < a.stop.toNat := hd
  have hzero : ∀ b : UInt64, b = 0 ↔ b.toNat = 0 := fun b => UInt64.toNat_inj.symm
  have hstart : a.start < a.depth ↔ a.start.toNat < a.depth.toNat := Iff.rfl
  have heq : a.start = a.depth ↔ a.start.toNat = a.depth.toNat := UInt64.toNat_inj.symm
  have z0 : (0 : UInt64).toNat = 0 := rfl
  have z1 : (1 : UInt64).toNat = 1 := rfl
  simp only [h.scans_iff, hs.scans, h.mem_window, hzero, hstart, heq]
  constructor
  · -- block zero tells whether it was scanned before, block one whether the window opens too late
    intro hall
    have h0 := hall 0 (by omega)
    have h1 := hall 1 (by omega)
    rw [z0] at h0
    rw [z1] at h1
    by_cases hlow : a.start.toNat < a.depth.toNat
    · exact .inl hlow
    · refine .inr ⟨by omega, ?_⟩
      obtain h0 | h0 := h0
      · exact h0.2
      · omega
  · intro hopen b hb
    by_cases hb0 : b.toNat = 0
    · obtain hlow | ⟨-, hx⟩ := hopen
      · exact .inr ⟨hb, by omega⟩
      · exact .inl ⟨hb0, hx⟩
    · exact .inr ⟨hb, by omega⟩

theorem deep_of_shallow (h : Advances ts t a none) (hs : Shallow ts none) (hd : a.depth < a.stop) :
    ∃ high, scannedAfter none (matured? a.start a.stop a.depth none) = some high ∧
      Deep (ts ++ [t]) high := by
  have hlt : a.start.toNat < a.stop.toNat := h.lt
  have hd' : a.depth.toNat < a.stop.toNat := hd
  have hlast : (a.stop - a.depth).toNat = a.stop.toNat - a.depth.toNat :=
    UInt64.toNat_sub_of_le _ _ (UInt64.le_of_lt hd)
  obtain ⟨r, hr, -⟩ := (h.mem_window (a.stop - a.depth)).2 ⟨by omega, by omega⟩
  have hhigh := (matured?_eq_some_iff.1 hr).2.2
  refine ⟨r.high, ?_, ⟨a, ?_, hd⟩, ?_, ?_⟩
  · rw [hr]
    refine if_pos ?_
    change 0 < r.high.toNat
    omega
  · rw [h.advances_eq]
    exact List.mem_append_right _ (List.mem_singleton.2 rfl)
  · rw [h.gapFree_iff, h.opens_iff, h.covered_iff hs hd]
    exact ⟨fun hg => ⟨hs.opens, fun _ _ => hg.2⟩, fun ho => ⟨hs.gapFree, ho.2 hd hs.depths⟩⟩
  · intro hg b hb
    have hb' : b.toNat ≤ r.high.toNat := hb
    exact (h.gapFree_iff.1 hg).2 b (by omega)

theorem deep {high : UInt64} (h : Advances ts t a (some high)) (hs : Deep ts high) :
    ∃ high', scannedAfter (some high) (matured? a.start a.stop a.depth (some high)) = some high' ∧
      Deep (ts ++ [t]) high' := by
  have reached : GapFree ts → ∀ b : UInt64, b ≤ high ∨ b.toNat + a.depth.toNat ≤ a.stop.toNat →
      ∃ r ∈ maturityScans (ts ++ [t]), b ∈ r := by
    intro hg b hb
    rw [h.scans_iff, mem_matured?_iff h.lt h.depth]
    by_cases hle : b ≤ high
    · exact .inl (hs.scans hg b hle)
    · exact .inr ⟨hb.resolve_left hle, UInt64.not_le.1 hle⟩
  have gapFree : GapFree (ts ++ [t]) ↔ GapFree ts :=
    h.gapFree_iff.trans (and_iff_left_of_imp fun hg b hb => reached hg b (.inr hb))
  have opens : OpensAtStart (ts ++ [t]) ↔ OpensAtStart ts := by
    refine h.opens_iff.trans (and_iff_left fun _ hall => ?_)
    obtain ⟨x, hx, hlt⟩ := hs.depths
    exact absurd (hall x hx) (UInt64.not_le.2 hlt)
  have depths : ∃ x ∈ advances (ts ++ [t]), x.depth < x.stop := by
    obtain ⟨x, hx, hlt⟩ := hs.depths
    exact ⟨x, by rw [h.advances_eq]; exact List.mem_append_left _ hx, hlt⟩
  have known : ∀ high', (∀ b ≤ high', b ≤ high ∨ b.toNat + a.depth.toNat ≤ a.stop.toNat) →
      Deep (ts ++ [t]) high' := by
    intro high' hle
    refine ⟨depths, by rw [gapFree, opens]; exact hs.gapFree_iff, fun hg b hb => ?_⟩
    exact reached (gapFree.1 hg) b (hle b hb)
  cases hm : matured? a.start a.stop a.depth (some high) with
  | none => exact ⟨high, rfl, known high fun b hb => .inl hb⟩
  | some r =>
    have hhigh := (matured?_eq_some_iff.1 hm).2.2
    by_cases hlt : high < r.high
    · refine ⟨r.high, if_pos hlt, known r.high fun b hb => .inr ?_⟩
      have hb' : b.toNat ≤ r.high.toNat := hb
      omega
    · exact ⟨high, if_neg hlt, known high fun b hb => .inl hb⟩

theorem known (h : Advances ts t a scanned) (hk : Known ts scanned) :
    Known (ts ++ [t]) (scannedAfter scanned (matured? a.start a.stop a.depth scanned)) := by
  obtain hs | ⟨high, rfl, hs⟩ := hk
  · obtain rfl := hs.scanned
    by_cases hd : a.depth < a.stop
    · exact .inr (h.deep_of_shallow hs hd)
    · exact .inl (h.shallow hs (UInt64.not_lt.1 hd))
  · exact .inr (h.deep hs)

end Advances
end Move

namespace Setup
open Surroundings

variable {s : Setup} {ts : List Tick} {m : Memory}

/-- What holds of an empty store and is kept by every tick, be it one that moves the head or not,
holds of every history in which no call of the maturity sweep fails. -/
theorem runs_by_advances {K : List Tick → Option UInt64 → Prop} (start : K [] none)
    (idle : ∀ ts t scanned, t.advance? = none → maturityScans (ts ++ [t]) = maturityScans ts →
      K ts scanned → K (ts ++ [t]) scanned)
    (moved : ∀ ts t a scanned, Advances ts t a scanned → K ts scanned →
      K (ts ++ [t]) (scannedAfter scanned (matured? a.start a.stop a.depth scanned)))
    (run : s.Runs (shared.only (Event.depthIn (1 ≤ ·))) .empty ts m)
    (calm : ∀ t ∈ ts, t.task = .maturity → t.Undisturbed) : K ts (m.ints (s.key .scanned)) := by
  induction run with
  | start => exact start
  | @tick ts w u es p before t run ih =>
    have ih := ih fun t ht => calm t (List.mem_append_left _ ht)
    by_cases ht : t = .maturity
    · subst ht
      obtain ⟨o, ho, step⟩ := maturityStep run (calm _ (by simp) rfl)
      have still : Still (w.ints (s.key .head)) (w.ints (s.key .scanned)) (u.ints (s.key .head))
          (u.ints (s.key .scanned)) (Tick.scanning ⟨.maturity, es, p.result?⟩) →
          Tick.advance? ⟨.maturity, es, p.result?⟩ = none →
          K (ts ++ [⟨.maturity, es, p.result?⟩]) (u.ints (s.key .scanned)) := by
        intro h hadv
        rw [h.scanned_eq]
        refine idle _ _ _ hadv ?_ ih
        rw [maturityScans_concat, h.completed, List.append_nil]
      cases o with
      | locked => exact still step (by rw [ho]; rfl)
      | noChange => exact still step (by rw [ho]; rfl)
      | advanced start stop dispatched =>
        obtain ⟨d, hdepth, hd, hm⟩ := step
        rw [hm.scanned_eq]
        refine moved _ _ ⟨start, stop, d⟩ _ ⟨?_, hm.lt, hd, ?_⟩ ih
        · exact Tick.advance?_eq_some rfl ho hdepth
        · rw [maturityScans_concat, hm.completed]
    · rw [(maturity_ints_eq run ht).2]
      exact idle _ _ _ (Tick.advance?_eq_none ht)
        (maturity_concat_of_ne (t := ⟨t, es, p.result?⟩) ht ts).1 ih

theorem runs_known (run : s.Runs (shared.only (Event.depthIn (1 ≤ ·))) .empty ts m)
    (calm : ∀ t ∈ ts, t.task = .maturity → t.Undisturbed) :
    Known ts (m.ints (s.key .scanned)) :=
  runs_by_advances (.inl shallow_nil) (fun _ _ _ hadv hs h => h.idle hadv hs)
    (fun _ _ _ _ ha h => ha.known h) run calm

/-- When no call of the maturity sweep fails, it leaves no block out, whatever depths it reads, if
and only if the first of its windows that goes beyond block zero opens at the start of the chain. -/
theorem gapFree_iff_opensAtStart
    (run : s.Runs (shared.only (Event.depthIn (1 ≤ ·))) .empty ts m)
    (calm : ∀ t ∈ ts, t.task = .maturity → t.Undisturbed) : GapFree ts ↔ OpensAtStart ts := by
  obtain h | ⟨high, -, h⟩ := runs_known run calm
  · exact ⟨fun _ => h.opens, fun _ => h.gapFree⟩
  · exact h.gapFree_iff

open Simulation

def depthLowered : List Turn :=
  [⟨.maturity, fun w => { w with depth := ⟨2⟩, chain := { w.chain with head := 1 } }⟩,
    ⟨.maturity, fun w => { w with depth := ⟨1⟩, chain := { w.chain with head := 2 } }⟩]

theorem runs_depthLowered : plainSetup.Runs (shared.only (Event.depthIn (1 ≤ ·))) .empty
    (play plainSetup 60 depthLowered quietWorld).1
    (play plainSetup 60 depthLowered quietWorld).2.store.memory :=
  (runs_play_shared plainSetup 60 depthLowered quietWorld (by simp [depthLowered])).only
    (by decide +kernel)

theorem advance?_depthLowered : ∃ t₁ t₂, (play plainSetup 60 depthLowered quietWorld).1 = [t₁, t₂] ∧
    t₁.advance? = some ⟨0, 1, 2⟩ ∧ t₂.advance? = some ⟨1, 2, 1⟩ := by
  have hmap : (play plainSetup 60 depthLowered quietWorld).1.map Tick.advance? =
      [some ⟨0, 1, 2⟩, some ⟨1, 2, 1⟩] := by decide +kernel
  obtain ⟨t₁, rest, hts, h₁, hrest⟩ := List.map_eq_cons_iff.1 hmap
  obtain ⟨t₂, rest, rfl, h₂, hrest⟩ := List.map_eq_cons_iff.1 hrest
  obtain rfl := List.map_eq_nil_iff.1 hrest
  exact ⟨t₁, t₂, hts, h₁, h₂⟩

theorem gapFree_iff_opensAtStart_depthLowered :
    ¬ OpensAtStart (play plainSetup 60 depthLowered quietWorld).1 ∧
      ¬ GapFree (play plainSetup 60 depthLowered quietWorld).1 := by
  have iff := gapFree_iff_opensAtStart runs_depthLowered (by decide +kernel)
  have closed : ¬ OpensAtStart (play plainSetup 60 depthLowered quietWorld).1 := by
    obtain ⟨t₁, t₂, hts, h₁, h₂⟩ := advance?_depthLowered
    intro h
    rw [hts] at h
    have hadv : advances [t₁] = [⟨0, 1, 2⟩] := by simp [advances, h₁]
    have hopen := h [t₁] t₂ [] rfl _ h₂ (by decide) (by rw [hadv]; decide)
    rw [hadv] at hopen
    revert hopen
    decide
  exact ⟨closed, fun h => closed (iff.1 h)⟩

/-- Lowering the depth before a block was scanned leaves blocks out: block 0 is deep enough below
head 2 then, but the only window is block 1. -/
theorem not_gapFree_of_depthLowered :
    ¬ ∀ (s : Setup) (ts : List Tick) (m : Memory),
      s.Runs (shared.only (Event.depthIn (1 ≤ ·))) .empty ts m →
      (∀ t ∈ ts, t.task = .maturity → t.Undisturbed) → GapFree ts := by
  intro claim
  have gapFree := claim _ _ _ runs_depthLowered (by decide +kernel)
  have scans : maturityScans (play plainSetup 60 depthLowered quietWorld).1 = [⟨1, 1⟩] := by
    decide +kernel
  obtain ⟨t₁, t₂, hts, -, h₂⟩ := advance?_depthLowered
  rw [hts] at gapFree scans
  obtain ⟨r, hr, hzero⟩ := gapFree [t₁] t₂ [] rfl _ h₂ 0 (by decide)
  rw [List.singleton_append, scans, List.mem_singleton] at hr
  subst hr
  revert hzero
  decide

end Setup
end BridgeNotifier
