import BridgeNotifier.Proofs.Scan
import BridgeNotifier.Proofs.Sweep
set_option autoImplicit false

namespace BridgeNotifier
namespace Surroundings.Shows
open Routine

variable {σ : Type} {S : Surroundings σ} {ints : σ → String → Option UInt64}
variable {I : σ → Prop} {C : Contract σ} {E : Error → σ → Prop} {w : σ} {s : Setup}

theorem ensures_depositPage {last : UInt64} {Q : FeedPage → σ → Prop}
    (page : ∀ x t, S w ⟨.records (.depositsAfter last s.pageSize), x⟩ t → I t ∧ Ends E (fun rows t =>
      (offerAll s.dispatcher (rows.map fun r => { deposit := r.2, status := .created })).Ensures
        S I C t fun sent u => Q ⟨UInt64.ofNat rows.length, rows.getLast?.map Prod.fst, sent⟩ u) x t) :
    (s.depositPage last).Ensures S I C E w Q := by
  refine ensures_bind (ensures_records fun x t ht => ?_)
  obtain ⟨hI, h⟩ := page x t ht
  refine ⟨hI, ?_⟩
  cases x with
  | error e => exact h
  | ok rows =>
    exact ensures_bind (ensures_lift (Program.Ensures.mono h fun sent u hu => ensures_pure hu))

theorem ensures_announceClaims (hS : S.Shows ints E) {J : List (UInt64 × Claim) → σ → Prop}
    (step : ∀ id c rest t, I t → J ((id, c) :: rest) t →
      ∀ x u, S t ⟨.records (.deposit c.originNetwork c.depositCount), x⟩ u → I u ∧ Ends E
        (fun (o : Option Deposit) u => (o = none → J rest u) ∧ ∀ d, o = some d →
          ((s.dispatcher.enabled && d.isAsset) = false → J rest u) ∧
          ((s.dispatcher.enabled && d.isAsset) = true →
            ∀ v, S u ⟨.launch s.dispatcher { deposit := d, status := .claimed, claim := some c }, ()⟩ v →
              I v ∧ J rest v)) x u)
    {rows : List (UInt64 × Claim)} (hI : I w) (h : J rows w) :
    (s.announceClaims rows).Ensures S I C E w fun _ t => J [] t := by
  induction rows generalizing w with
  | nil => exact ensures_pure h
  | cons row rest ih =>
    obtain ⟨id, c⟩ := row
    refine ensures_bind (ensures_records fun x u hu => ?_)
    obtain ⟨hIu, hx⟩ := step id c rest w hI h x u hu
    refine ⟨hIu, ?_⟩
    have left : ∀ {sent : Bool} {t : σ}, I t → J rest t → Routine.Ensures S I C E (do
        let n ← s.announceClaims rest
        return (if sent then 1 else 0) + n) t fun _ v => J [] v := fun ht hJ =>
      ensures_bind ((ih ht hJ).mono fun _ _ hv => ensures_pure hv)
    cases x with
    | error e => exact hx
    | ok o =>
      cases o with
      | none => exact ensures_bind (ensures_pure (left hIu (hx.1 rfl)))
      | some d =>
        obtain ⟨skip, launch⟩ := hx.2 d rfl
        have offered := hS.ensures_offer (C := C) (Q := fun _ t => J rest t) hIu
          (n := { deposit := d, status := .claimed, claim := some c }) skip launch
        refine ensures_bind (ensures_lift ((offered.keeping hIu).mono fun sent t ht => ?_))
        exact left ht.1 ht.2

theorem ensures_claimPage {last : UInt64} {Q : FeedPage → σ → Prop}
    (page : ∀ x t, S w ⟨.records (.claimsAfter last s.pageSize), x⟩ t → I t ∧ Ends E (fun rows t =>
      (s.announceClaims rows).Ensures S I C E t fun sent u =>
        Q ⟨UInt64.ofNat rows.length, rows.getLast?.map Prod.fst, sent⟩ u) x t) :
    (s.claimPage last).Ensures S I C E w Q := by
  refine ensures_bind (ensures_records fun x t ht => ?_)
  obtain ⟨hI, h⟩ := page x t ht
  refine ⟨hI, ?_⟩
  cases x with
  | error e => exact h
  | ok rows => exact ensures_bind (Routine.Ensures.mono h fun sent u hu => ensures_pure hu)

/-- What is left of a round once its page ends at an id: nothing, or the next round. -/
def GoesOn (S : Surroundings σ) (I : σ → Prop) (C : Contract σ) (E : Error → σ → Prop) (s : Setup)
    (f : Feed) (page : FeedPage) (dispatched last : UInt64) (t : σ)
    (Q : UInt64 × UInt64 → σ → Prop) : Prop :=
  if page.rows < s.pageSize.toUInt64 then Q (last, dispatched + page.dispatched) t
  else (ofProgram (Program.loop (.feed s f last (dispatched + page.dispatched)))).Ensures S I C E t Q

/-- What is left of a round once its page was announced: the watermark moves to the last id. -/
def Follows (S : Surroundings σ) (ints : σ → String → Option UInt64) (I : σ → Prop)
    (C : Contract σ) (E : Error → σ → Prop) (s : Setup) (f : Feed) (page : FeedPage)
    (dispatched last : UInt64) (t : σ) (Q : UInt64 × UInt64 → σ → Prop) : Option UInt64 → Prop
  | some id => Moves S ints I (s.key f.watermark) id t fun u =>
      GoesOn S I C E s f page dispatched id u Q
  | none => GoesOn S I C E s f page dispatched last t Q

theorem ensures_feedRound (hS : S.Shows ints E) (hI : I w) {f : Feed} {last dispatched : UInt64}
    {Q : UInt64 × UInt64 → σ → Prop}
    (page : (s.feedPage f last).Ensures S I C E w fun page t =>
      Follows S ints I C E s f page dispatched last t Q page.lastId) :
    (s.feedRound f last dispatched).Ensures S I C E w Q := by
  refine ensures_bind ((page.keeping hI).mono ?_)
  rintro page t ⟨ht, h⟩
  refine ensures_bind (hS.ensures_measure ht ?_)
  have left : ∀ {last : UInt64} {u : σ}, GoesOn S I C E s f page dispatched last u Q →
      Routine.Ensures S I C E (do
        if page.rows < s.pageSize.toUInt64 then return (last, dispatched + page.dispatched)
        ofProgram (Program.loop (.feed s f last (dispatched + page.dispatched)))) u Q := by
    intro last u hu
    unfold GoesOn at hu
    split at hu
    · rename_i hlt
      simp only [if_pos hlt]
      exact ensures_pure hu
    · rename_i hlt
      simp only [if_neg hlt]
      exact hu
  obtain ⟨rows, lastId, sent⟩ := page
  cases lastId with
  | none => exact ensures_bind (ensures_pure (left h))
  | some id =>
    simp only [Follows] at h
    refine ensures_bind ((hS.ensures_advance ht h).mono fun b u hu => ?_)
    exact ensures_bind (ensures_pure (left hu))

end Surroundings.Shows
end BridgeNotifier
