import BridgeNotifier.Proofs.Feed
import BridgeNotifier.Proofs.History
set_option autoImplicit false

namespace BridgeNotifier

theorem storeKey_injective {ns a b : String} (h : storeKey ns a = storeKey ns b) : a = b := by
  unfold storeKey at h
  split at h
  · exact h
  · exact String.append_right_inj _ |>.1 h

def Watermark.owner : Watermark → Task
  | .head | .scanned => .maturity
  | .committedBatch | .committedCeiling => .batch .commit
  | .verifiedBatch | .verifiedCeiling => .batch .verify
  | .depositFeed => .feed .deposits
  | .claimFeed => .feed .claims

namespace Setup

variable (s : Setup)

theorem key_inj {v w : Watermark} : s.key v = s.key w ↔ v = w :=
  ⟨fun h => Watermark.name_injective (storeKey_injective h), congrArg s.key⟩

theorem averageKey_ne_key (r : Role) (w : Watermark) : (s.estimator r).averageKey ≠ s.key w := by
  intro h
  have hn : r.averageName = w.name := storeKey_injective h
  revert hn
  cases r <;> cases w <;> decide

theorem scanned_ne_head : s.key .scanned ≠ s.key .head :=
  fun h => nomatch s.key_inj.1 h

theorem ceiling_ne_batch (r : Role) : s.key r.ceiling ≠ s.key r.batch := by
  intro h
  have hw := s.key_inj.1 h
  cases r <;> cases hw

theorem ceiling_ne_averageKey (r : Role) : s.key r.ceiling ≠ (s.estimator r).averageKey :=
  fun h => s.averageKey_ne_key r r.ceiling h.symm

def owned : Task → List String
  | .maturity => [s.key .head, s.key .scanned]
  | .batch r => [s.key r.batch, s.key r.ceiling, (s.estimator r).averageKey]
  | .feed f => [s.key f.watermark]

theorem key_not_mem_owned {t : Task} {w : Watermark} (h : t ≠ w.owner) : s.key w ∉ s.owned t := by
  intro hk
  rcases t with _ | r | f
  · simp only [owned, List.mem_cons, List.not_mem_nil, or_false, key_inj] at hk
    obtain rfl | rfl := hk <;> exact h rfl
  · simp only [owned, List.mem_cons, List.not_mem_nil, or_false, key_inj] at hk
    obtain rfl | rfl | hk := hk
    · cases r <;> exact h rfl
    · cases r <;> exact h rfl
    · exact s.averageKey_ne_key r w hk.symm
  · simp only [owned, List.mem_cons, List.not_mem_nil, or_false, key_inj] at hk
    obtain rfl := hk
    cases f <;> exact h rfl

end Setup

namespace Surroundings.Shows
open Routine

variable {σ : Type} {S : Surroundings σ} {ints : σ → String → Option UInt64}
variable {C : Contract σ} {E : Error → σ → Prop} {w : σ} {key k : String} {value : UInt64}
variable {v : Option UInt64}

theorem writes_other (hS : S.Shows ints E) (hk : k ≠ key) (hw : ints w k = v) {Q : σ → Prop}
    (h : ∀ t, ints t k = v → Q t) : Writes S (fun t => ints t k = v) key value w Q := by
  intro t ht
  have hv : ints t k = v := by rw [hS.write ht, Function.update_of_ne hk _ _, hw]
  exact ⟨hv, h t hv⟩

theorem moves_other (hS : S.Shows ints E) (hk : k ≠ key) (hw : ints w k = v) {Q : σ → Prop}
    (h : ∀ t, ints t k = v → Q t) : Moves S ints (fun t => ints t k = v) key value w Q :=
  ⟨fun _ => h w hw, fun _ => hS.writes_other hk hw h⟩

theorem moves_after_ceiling {s : Setup} {r : Role} {latest : UInt64} {I Q : σ → Prop}
    (other : ∀ key value u, s.key r.ceiling ≠ key → I u → Q u →
      Writes S I key value u fun v => I v ∧ Q v) (hI : I w) (hQ : Q w) :
    Moves S ints I (s.key r.batch) latest w fun v =>
      Q v ∧ ∀ average, Writes S I (s.estimator r).averageKey average v Q := by
  have last : ∀ v, I v → Q v →
      Q v ∧ ∀ average, Writes S I (s.estimator r).averageKey average v Q := by
    refine fun v hv hQ => ⟨hQ, fun average z hz => ?_⟩
    have written := other _ average v (s.ceiling_ne_averageKey r) hv hQ z hz
    exact ⟨written.1, written.2.2⟩
  refine ⟨fun _ => last w hI hQ, fun _ v hv => ?_⟩
  obtain ⟨hIv, -, hQv⟩ := other _ latest w (s.ceiling_ne_batch r) hI hQ v hv
  exact ⟨hIv, last v hIv hQv⟩

end Surroundings.Shows

namespace Contract
open Routine Surroundings

variable {σ : Type} {S : Surroundings σ} {ints : σ → String → Option UInt64}
variable {s : Setup} {k : String} {v : Option UInt64}

def sparing (k : String) : Contract σ where
  needs
    | .scan .., _ => True
    | .feed s f _ _, _ => k ≠ s.key f.watermark
    | _, _ => False
  gives _ _ _ _ := True

theorem ends_of_forall {α : Type} {Q : α → σ → Prop} {r : Except Error α} {t : σ}
    (h : ∀ a, Q a t) : Ends (fun _ _ => True) Q r t := by
  cases r with
  | ok a => exact h a
  | error e => trivial

section Sparing

variable {w : σ}

theorem sparing_offerAll (hS : S.Shows ints fun _ _ => True) {d : Dispatcher} {ns : List Notice}
    {Q : UInt64 → σ → Prop} (hw : ints w k = v) (hQ : ∀ n u, ints u k = v → Q n u) :
    (offerAll d ns).Ensures S (fun t => ints t k = v) (sparing k) w Q := by
  have h : (offerAll d ns).Ensures S (fun t => ints t k = v) (sparing k) w
      fun _ t => ints t k = v := by
    refine hS.ensures_offerAll (J := fun _ t => ints t k = v) (fun _ _ _ _ h _ => h) ?_ hw hw
    intro n rest t ht _ _ u hu
    have hu' : ints u k = v := by rw [hS.launch hu, ht]
    exact ⟨hu', hu'⟩
  exact h.mono hQ

theorem sparing_page (hS : S.Shows ints fun _ _ => True) {sc : Scan} {offset : UInt64}
    {summary : ScanSummary} (hw : ints w k = v) :
    (sc.page offset summary).Ensures S (fun t => ints t k = v) (sparing k) (fun _ _ => True) w
      fun _ _ => True := by
  refine hS.ensures_page fun x t ht => ?_
  have hv : ints t k = v := by rw [hS.records ht, hw]
  refine ⟨hv, ends_of_forall fun rows => ?_⟩
  refine sparing_offerAll hS hv fun sent u hu => ?_
  dsimp only
  split
  · trivial
  · exact ⟨trivial, fun _ _ _ _ => ends_of_forall fun _ => trivial⟩

theorem sparing_feedRound (hS : S.Shows ints fun _ _ => True) {f : Feed} {last dispatched : UInt64}
    (hk : k ≠ s.key f.watermark) (hw : ints w k = v) :
    (s.feedRound f last dispatched).Ensures S (fun t => ints t k = v) (sparing k) (fun _ _ => True)
      w fun _ _ => True := by
  have goes : ∀ {page : FeedPage} {last : UInt64} {u : σ}, Shows.GoesOn S (fun t => ints t k = v)
      (sparing k) (fun _ _ => True) s f page dispatched last u fun _ _ => True := by
    intro page last u
    unfold Shows.GoesOn
    split
    · trivial
    · exact ⟨hk, fun _ _ _ _ => ends_of_forall fun _ => trivial⟩
  have follows : ∀ (page : FeedPage) (t : σ), ints t k = v →
      Shows.Follows S ints (fun t => ints t k = v) (sparing k) (fun _ _ => True) s f page
        dispatched last t (fun _ _ => True) page.lastId := by
    rintro ⟨rows, lastId, sent⟩ t ht
    cases lastId with
    | some id => exact hS.moves_other hk ht fun _ _ => goes
    | none => exact goes
  have read : ∀ {c : RecordCall} {x : Except Error c.Answer} {w t : σ}, ints w k = v →
      S w ⟨.records c, x⟩ t → ints t k = v := by
    intro c x w t hw ht
    rw [hS.records ht, hw]
  refine hS.ensures_feedRound hw ?_
  cases f with
  | deposits =>
    refine Shows.ensures_depositPage fun x t ht => ⟨read hw ht, ends_of_forall fun rows => ?_⟩
    exact sparing_offerAll hS (read hw ht) fun sent u hu => follows _ u hu
  | claims =>
    refine Shows.ensures_claimPage fun x t ht => ⟨read hw ht, ends_of_forall fun rows => ?_⟩
    refine Routine.Ensures.mono (hS.ensures_announceClaims (J := fun _ t => ints t k = v) ?_
      (read hw ht) (read hw ht)) fun sent u hu => follows _ u hu
    intro id c rest t ht _ x u hu
    refine ⟨read ht hu, ends_of_forall fun o => ⟨fun _ => read ht hu, fun d _ =>
      ⟨fun _ => read ht hu, fun _ z hz => ?_⟩⟩⟩
    have hz' : ints z k = v := by rw [hS.launch hz, read ht hu]
    exact ⟨hz', hz'⟩

theorem sparing_kept (hS : S.Shows ints fun _ _ => True) :
    (sparing k).Kept S fun t => ints t k = v := by
  rintro (⟨s, offset, summary⟩ | ⟨s, f, last, dispatched⟩ | ⟨l, deadline⟩ | ⟨s, t, i, deadline⟩)
    w hw hn
  · exact Program.Ensures.mono (sparing_page hS hw) fun _ _ _ => trivial
  · exact Program.Ensures.mono (sparing_feedRound hS hn hw) fun _ _ _ => trivial
  all_goals exact hn.elim

end Sparing
end Contract

namespace Setup
open Routine Surroundings

variable {σ : Type} {S : Surroundings σ} {ints : σ → String → Option UInt64} {s : Setup}
variable {t : Task} {k : String}

theorem ensures_sweep_other (hS : S.Shows ints fun _ _ => True) {v : Option UInt64} {w : σ}
    (hk : k ∉ s.owned t) (hw : ints w k = v) :
    (s.sweep t).Ensures S (fun t => ints t k = v) (Contract.sparing k) (fun _ _ => True) w
      fun _ _ => True := by
  have scanned : ∀ {x : Scan} {u : σ} {Q : ScanSummary → σ → Prop}, ints u k = v →
      (∀ n y, ints y k = v → Q n y) →
      x.run.Ensures S (fun t => ints t k = v) (Contract.sparing k) (fun _ _ => True) u Q := by
    intro x u Q hu hQ
    unfold Scan.run
    split
    · exact ensures_pure (hQ _ u hu)
    · exact ⟨trivial, fun _ y hy _ => Contract.ends_of_forall fun n => hQ n y hy⟩
  cases t with
  | maturity =>
    simp only [owned, List.mem_cons, List.not_mem_nil, or_false, not_or] at hk
    refine hS.ensures_sweepMaturity hw trivial fun newHead depth t _ ht => ?_
    have hv : ints t k = v := by rw [hS.depth ht, hw]
    refine ⟨hv, ?_⟩
    generalize matured? _ newHead depth _ = window
    cases window with
    | none => exact hS.moves_other hk.1 hv fun _ _ => trivial
    | some range =>
      exact scanned hv fun _ y hy => hS.moves_other hk.2 hy fun z hz =>
        hS.moves_other hk.1 hz fun _ _ => trivial
  | batch r =>
    simp only [owned, List.mem_cons, List.not_mem_nil, or_false, not_or] at hk
    obtain ⟨hb, hc, ha⟩ := hk
    have settled : ∀ {newCeiling latest : UInt64} {u : σ}, ints u k = v →
        Shows.Settles S ints (fun t => ints t k = v) s r newCeiling latest u fun _ => True :=
      fun hu => hS.moves_other hc hu fun y hy => hS.moves_other hb hy fun z hz =>
        ⟨trivial, fun _ => hS.writes_other ha hz fun _ _ => trivial⟩
    exact hS.ensures_sweepBatch hw trivial
      (fun _ _ _ _ => scanned hw fun _ _ hy => settled hy) fun _ _ _ _ => settled hw
  | feed f =>
    simp only [owned, List.mem_cons, List.not_mem_nil, or_false] at hk
    refine hS.ensures_sweepFeed hw (fun _ => ?_) fun start _ => ?_
    · have asked : ∀ {c : RecordCall} {Q : c.Answer → σ → Prop}, (∀ x u, ints u k = v → Q x u) →
          (Routine.records c).Ensures S (fun t => ints t k = v) (Contract.sparing k)
            (fun _ _ => True) w Q := by
        intro c Q hQ
        refine ensures_records fun x u hu => ?_
        have hv : ints u k = v := by rw [hS.records hu, hw]
        exact ⟨hv, Contract.ends_of_forall fun a => hQ a u hv⟩
      cases f <;> exact asked fun _ u hu => ⟨fun _ => trivial, fun _ =>
        hS.writes_other hk hu fun _ _ => trivial⟩
    · exact ⟨hk, fun _ _ _ _ => Contract.ends_of_forall fun _ => trivial⟩

/-- However far a tick comes, it changes no number of another task. -/
theorem ints_of_not_owned {m n : Memory} {es : List Event} {p : Program (Except Error Outcome)}
    (run : (s.tick t).run.Leads shared m es p n) (hk : k ∉ s.owned t) : n.ints k = m.ints k := by
  have hS : ((numbers.only fun _ => True).noted fun (o : Unit) _ => o).Shows Prod.fst
      (fun _ _ => True) := numbers_shows (fun _ _ _ => rfl) fun _ _ _ _ _ => trivial
  have noted := ((run.map Memory.ints fun _ _ _ => numbers_of_shared).only fun _ _ => trivial).noted
    (fun (o : Unit) _ => o) ()
  have hsweep := ensures_sweep_other (s := s) (v := m.ints k) (w := (m.ints, ())) hS hk rfl
  have htick := hS.ensures_tick (I := fun u => u.1 k = m.ints k) rfl trivial hsweep
  have kept := Program.Ensures.invariant htick (Contract.sparing_kept hS) rfl noted
  exact kept

end Setup
end BridgeNotifier
