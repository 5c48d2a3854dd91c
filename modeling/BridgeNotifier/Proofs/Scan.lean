import BridgeNotifier.Proofs.Routine
set_option autoImplicit false

namespace BridgeNotifier

instance (b : UInt64) (r : BlockRange) : Decidable (b ∈ r) :=
  inferInstanceAs (Decidable (r.low ≤ b ∧ b ≤ r.high))

namespace Surroundings.Shows
open Routine

variable {σ : Type} {S : Surroundings σ} {ints : σ → String → Option UInt64}
variable {I : σ → Prop} {C : Contract σ} {E : Error → σ → Prop} {w : σ}

theorem ensures_offer (hS : S.Shows ints E) (hI : I w) {d : Dispatcher} {n : Notice}
    {Q : Bool → σ → Prop} (skip : (d.enabled && n.deposit.isAsset) = false → Q false w)
    (launch : (d.enabled && n.deposit.isAsset) = true →
      ∀ t, S w ⟨.launch d n, ()⟩ t → I t ∧ Q true t) :
    (d.offer n).Ensures S I C w Q := by
  unfold Dispatcher.offer
  cases hd : d.enabled with
  | false => exact skip (by simp [hd])
  | true =>
    cases hn : n.deposit.isAsset with
    | false =>
      exact Program.ensures_bind (hS.ensures_request hI (fun _ => rfl) fun _ =>
        skip (by simp [hd, hn]))
    | true => exact fun _ t ht => launch (by simp [hd, hn]) t ht

theorem ensures_offerAll (hS : S.Shows ints E) {d : Dispatcher} {J : List Notice → σ → Prop}
    (skip : ∀ n rest t, I t → J (n :: rest) t → (d.enabled && n.deposit.isAsset) = false → J rest t)
    (launch : ∀ n rest t, I t → J (n :: rest) t → (d.enabled && n.deposit.isAsset) = true →
      ∀ u, S t ⟨.launch d n, ()⟩ u → I u ∧ J rest u)
    {ns : List Notice} (hI : I w) (h : J ns w) :
    (offerAll d ns).Ensures S I C w fun _ t => J [] t := by
  induction ns generalizing w with
  | nil => exact h
  | cons n rest ih =>
    have offered : (d.offer n).Ensures S I C w fun _ t => J rest t :=
      hS.ensures_offer hI (skip n rest w hI h) (launch n rest w hI h)
    refine Program.ensures_bind ((offered.keeping hI).mono fun sent t ht => ?_)
    exact Program.ensures_bind ((ih ht.1 ht.2).mono fun _ _ hu => hu)

theorem ensures_offerAll_of_silent (hS : S.Shows ints E)
    (silent : ∀ {s d n t}, S s ⟨.launch d n, ()⟩ t → t = s) (hI : I w) {d : Dispatcher}
    {ns : List Notice} : (offerAll d ns).Ensures S I C w fun _ t => t = w := by
  refine hS.ensures_offerAll (J := fun _ t => t = w) (fun _ _ _ _ h _ => h) ?_ hI rfl
  rintro n rest t ht rfl _ u hu
  obtain rfl := silent hu
  exact ⟨ht, rfl⟩

theorem ensures_page (hS : S.Shows ints E) {s : Scan} {offset : UInt64} {summary : ScanSummary}
    {Q : ScanSummary → σ → Prop}
    (page : ∀ x t, S w ⟨.records (.maturing s.network s.range s.pageSize offset), x⟩ t →
      I t ∧ Ends E (fun rows t =>
        (offerAll s.dispatcher (rows.map fun d => { deposit := d, status := s.status })).Ensures
          S I C t fun sent u =>
            let summary : ScanSummary := ⟨summary.pages + 1,
              summary.matched + UInt64.ofNat rows.length, summary.dispatched + sent⟩
            if UInt64.ofNat rows.length < s.pageSize.toUInt64 then Q summary u
            else (ofProgram (Program.loop (.scan s (offset + UInt64.ofNat rows.length) summary))).Ensures
              S I C E u Q) x t) :
    (s.page offset summary).Ensures S I C E w Q := by
  refine ensures_bind (ensures_records fun x t ht => ?_)
  obtain ⟨hI, h⟩ := page x t ht
  refine ⟨hI, ?_⟩
  cases x with
  | error e => exact h
  | ok rows =>
    refine ensures_bind (hS.ensures_measure hI (ensures_bind (ensures_lift ?_)))
    refine Program.Ensures.mono h fun sent u hu => ?_
    by_cases hlt : UInt64.ofNat rows.length < s.pageSize.toUInt64
    · simp only [if_pos hlt] at hu ⊢
      exact ensures_pure hu
    · simp only [if_neg hlt] at hu ⊢
      exact hu

end Surroundings.Shows

namespace Contract
open Routine

variable {σ : Type} {S : Surroundings σ} {ints : σ → String → Option UInt64}
variable {I : σ → Prop} {E : Error → σ → Prop} {N : Scan → UInt64 → σ → Prop}
variable {R : Scan → σ → σ → Prop} {w : σ}

/-- Rounds of scans begin where `N` says, and lead from states to states as `R` says. -/
def scans (E : Error → σ → Prop) (N : Scan → UInt64 → σ → Prop) (R : Scan → σ → σ → Prop) :
    Contract σ where
  needs
    | .scan s offset _, w => N s offset w
    | _, _ => False
  gives
    | .scan s _ _, w, r, t => Ends E (fun _ t => R s w t) r t
    | _, _, _, _ => False

theorem scans_kept (hS : S.Shows ints E) (silent : ∀ {s d n t}, S s ⟨.launch d n, ()⟩ t → t = s)
    (page : ∀ (s : Scan) offset w x t, I w → N s offset w →
      S w ⟨.records (.maturing s.network s.range s.pageSize offset), x⟩ t →
      I t ∧ ∀ rows, x = .ok rows → if UInt64.ofNat rows.length < s.pageSize.toUInt64 then R s w t
        else N s (offset + UInt64.ofNat rows.length) t ∧ ∀ u, R s t u → R s w u) :
    (scans E N R).Kept S I := by
  rintro (⟨s, offset, summary⟩ | ⟨s, f, last, dispatched⟩ | ⟨l, deadline⟩ | ⟨s, t, i, deadline⟩)
    w hI hn
  · refine hS.ensures_page fun x t ht => ?_
    obtain ⟨hIt, h⟩ := page s offset w x t hI hn ht
    refine ⟨hIt, ?_⟩
    cases x with
    | error e => exact hS.failed ht rfl
    | ok rows =>
      have hr := h rows rfl
      refine (hS.ensures_offerAll_of_silent silent hIt).mono ?_
      rintro sent u rfl
      by_cases hlt : UInt64.ofNat rows.length < s.pageSize.toUInt64
      · simp only [if_pos hlt] at hr ⊢
        exact hr
      · simp only [if_neg hlt] at hr ⊢
        refine ⟨hr.1, fun r v _ hv => ?_⟩
        cases r with
        | error e => exact hv
        | ok sm => exact hr.2 v hv
  all_goals exact hn.elim

theorem scans_run {s : Scan} {Q : ScanSummary → σ → Prop} (hle : s.range.low ≤ s.range.high)
    (begin : N s 0 w) (h : ∀ summary t, I t → R s w t → Q summary t) :
    s.run.Ensures S I (scans E N R) E w Q := by
  unfold Scan.run
  rw [if_neg (UInt64.not_lt.2 hle)]
  refine ⟨begin, fun r t hI hr => ?_⟩
  cases r with
  | error e => exact hr
  | ok summary => exact h summary t hI hr

end Contract
end BridgeNotifier
