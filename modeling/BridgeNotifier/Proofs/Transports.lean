import BridgeNotifier.Proofs.Alike
import BridgeNotifier.Proofs.Footprint
import BridgeNotifier.Proofs.Replicas
import Mathlib.Data.List.Forall2
set_option autoImplicit false

/-!
# Transports

Replicas beside the same replicas with another transport. What they do apart from their notices is
the same, move by move, as long as the same one moves next and is answered in the same way.
-/
namespace BridgeNotifier
open Surroundings Replicas

variable {n : Nat}

def Event.renews : Event → List Bool
  | ⟨.launch .., _⟩ => [false]
  | ⟨.hold _, _⟩ => [true]
  | _ => []

/-- What somebody sees who overlooks the notices. -/
structure Trail (n : Nat) where
  renews : List Bool
  seen : List (Move n)

namespace Trail

def started : Move n → List Bool
  | ⟨_, .tick _, e⟩ => e.renews
  | ⟨_, .job _, _⟩ => []

/-- Offers and deliveries are not seen. Renewals are counted by themselves. -/
def glimpse (w : Trail n) (mv : Move n) : Option (Move n) :=
  match mv.actor with
  | .tick _ => if mv.event.request.isOffer then none else some mv
  | .job j =>
    if w.renews[j]? = some true then
      some { mv with actor := .job ((w.renews.take j).count true) }
    else none

def next (w : Trail n) (mv : Move n) : Trail n :=
  ⟨w.renews ++ started mv, w.seen ++ (w.glimpse mv).toList⟩

def after (ms : List (Move n)) : Trail n :=
  ms.foldl next ⟨[], []⟩

theorem after_concat (ms : List (Move n)) (mv : Move n) :
    after (ms ++ [mv]) = (after ms).next mv := by
  simp [after]

variable {w : Trail n} {now j : Nat} {i : Fin n} {e : Event} {v : Move n}

theorem glimpse_tick_eq_none (h : w.glimpse ⟨now, .tick i, e⟩ = none) :
    e.request.isOffer = true := by
  cases offer : e.request.isOffer with
  | true => rfl
  | false => simp [glimpse, offer] at h

theorem glimpse_tick (h : w.glimpse ⟨now, .tick i, e⟩ = some v) :
    e.request.isOffer = false ∧ v = ⟨now, .tick i, e⟩ := by
  cases offer : e.request.isOffer with
  | true => simp [glimpse, offer] at h
  | false => exact ⟨rfl, by simpa [glimpse, offer] using h.symm⟩

theorem glimpse_job_eq_none (h : w.glimpse ⟨now, .job j, e⟩ = none) :
    w.renews[j]? ≠ some true := by
  intro hb
  simp [glimpse, hb] at h

theorem glimpse_job (h : w.glimpse ⟨now, .job j, e⟩ = some v) : w.renews[j]? = some true ∧
    v = ⟨now, .job ((w.renews.take j).count true), e⟩ := by
  by_cases hb : w.renews[j]? = some true
  · exact ⟨hb, by simpa [glimpse, hb] using h.symm⟩
  · simp [glimpse, hb] at h

theorem glimpse_now {mv : Move n} (h : w.glimpse mv = some v) : v.now = mv.now := by
  obtain ⟨now, (i | j), e⟩ := mv
  · rw [(glimpse_tick h).2]
  · rw [(glimpse_job h).2]

end Trail

theorem Replicas.Step.now_eq {P Q : Replicas n} {mv : Move n} (h : P.Step mv Q) :
    Q.now = mv.now := by
  cases h with
  | tick _ _ => rfl
  | job _ _ _ => rfl

def withoutNotices (ms : List (Move n)) : List (Move n) :=
  (Trail.after ms).seen

/-- After the same moves the same one moves next, at the same instant, and is answered in the same
way if it asks for the same. -/
def SameAnswers (v v' : List (Move n)) : Prop :=
  ∀ before mv mv', before ++ [mv] <+: v → before ++ [mv'] <+: v' →
    mv.now = mv'.now ∧ mv.actor = mv'.actor ∧
      (mv.event.request = mv'.event.request → mv.event = mv'.event)

theorem SameAnswers.refl (v : List (Move n)) : SameAnswers v v := by
  intro before mv mv' h h'
  have same := (List.prefix_of_prefix_length_le h h' (by simp)).eq_of_length (by simp)
  obtain rfl : mv = mv' := by simpa using same
  exact ⟨rfl, rfl, fun _ => rfl⟩

abbrev Program.IsDelivery (p : Program Unit) : Prop :=
  ∃ d : Dispatcher, p.Within d.asks fun _ => False

abbrev Program.IsRenewal (p : Program Unit) : Prop :=
  p.Within (·.isRenewal = true) (·.isRenewal = true)

inductive Renewing : List Bool → List (Thread Unit) → List (Thread Unit) → Prop where
  | nil : Renewing [] [] []
  | renewal {bs : List Bool} {js rs : List (Thread Unit)} {t : Thread Unit}
      (own : t.program.IsRenewal) (rest : Renewing bs js rs) :
      Renewing (true :: bs) (t :: js) (t :: rs)
  | delivery {bs : List Bool} {js rs : List (Thread Unit)} {t : Thread Unit}
      (own : t.program.IsDelivery) (rest : Renewing bs js rs) :
      Renewing (false :: bs) (t :: js) rs

namespace Renewing

variable {bs : List Bool} {js rs : List (Thread Unit)} {j k : Nat} {t : Thread Unit}

theorem append_renewal (h : Renewing bs js rs) (own : t.program.IsRenewal) :
    Renewing (bs ++ [true]) (js ++ [t]) (rs ++ [t]) := by
  induction h with
  | nil => exact .renewal own .nil
  | renewal own' _ ih => exact .renewal own' ih
  | delivery own' _ ih => exact .delivery own' ih

theorem append_delivery (h : Renewing bs js rs) (own : t.program.IsDelivery) :
    Renewing (bs ++ [false]) (js ++ [t]) rs := by
  induction h with
  | nil => exact .delivery own .nil
  | renewal own' _ ih => exact .renewal own' ih
  | delivery own' _ ih => exact .delivery own' ih

theorem append_starts {e : Event} (h : Renewing bs js rs) (loud : e.request.isOffer = false) :
    Renewing (bs ++ e.renews) (js ++ e.starts.map (Thread.mk []))
      (rs ++ e.starts.map (Thread.mk [])) := by
  obtain ⟨r, x⟩ := e
  cases r with
  | launch d notice => cases loud
  | hold l => exact h.append_renewal l.within_keep
  | _ => simpa [Event.renews, Event.starts] using h

theorem renewal_at (h : Renewing bs js rs) (hb : bs[j]? = some true) (hj : js[j]? = some t) :
    t.program.IsRenewal ∧ rs[(bs.take j).count true]? = some t ∧
      ∀ u : Thread Unit, u.program.IsRenewal →
        Renewing bs (js.set j u) (rs.set ((bs.take j).count true) u) := by
  induction h generalizing j with
  | nil => cases hb
  | renewal own rest ih =>
    cases j with
    | zero =>
      obtain rfl := Option.some.inj hj
      exact ⟨own, rfl, fun u hu => .renewal hu rest⟩
    | succ j =>
      obtain ⟨own', found, set⟩ := ih hb hj
      exact ⟨own', by simpa using found, fun u hu => by simpa using (set u hu).renewal own⟩
  | delivery own rest ih =>
    cases j with
    | zero => cases hb
    | succ j =>
      obtain ⟨own', found, set⟩ := ih hb hj
      exact ⟨own', by simpa using found, fun u hu => by simpa using (set u hu).delivery own⟩

theorem delivery_at (h : Renewing bs js rs) (hb : bs[j]? ≠ some true) (hj : js[j]? = some t) :
    t.program.IsDelivery ∧
      ∀ u : Thread Unit, u.program.IsDelivery → Renewing bs (js.set j u) rs := by
  induction h generalizing j with
  | nil => cases hj
  | renewal own rest ih =>
    cases j with
    | zero => exact absurd rfl hb
    | succ j =>
      obtain ⟨own', set⟩ := ih hb hj
      exact ⟨own', fun u hu => .renewal own (set u hu)⟩
  | delivery own rest ih =>
    cases j with
    | zero =>
      obtain rfl := Option.some.inj hj
      exact ⟨own, fun u hu => .delivery hu rest⟩
    | succ j =>
      obtain ⟨own', set⟩ := ih hb hj
      exact ⟨own', fun u hu => .delivery own (set u hu)⟩

theorem exists_index (h : Renewing bs js rs) (hk : rs[k]? = some t) :
    ∃ j, bs[j]? = some true ∧ (bs.take j).count true = k ∧ js[j]? = some t := by
  induction h generalizing k with
  | nil => cases hk
  | renewal _ _ ih =>
    cases k with
    | zero => exact ⟨0, rfl, rfl, hk⟩
    | succ k =>
      obtain ⟨j, hb, count, hj⟩ := ih hk
      exact ⟨j + 1, hb, by simp [count], hj⟩
  | delivery _ _ ih =>
    obtain ⟨j, hb, count, hj⟩ := ih hk
    exact ⟨j + 1, hb, by simp [count], hj⟩

theorem after_job {w : Trail n} {now : Nat} {e : Event} (h : Renewing w.renews js rs) :
    Renewing (w.next ⟨now, .job j, e⟩).renews js rs := by
  have kept : (w.next ⟨now, .job j, e⟩).renews = w.renews := List.append_nil _
  rwa [kept]

end Renewing

theorem Request.isOffer_of_isRenewal {r : Request} (h : r.isRenewal = true) : r.isOffer = false := by
  cases r with
  | launch d notice => cases h
  | measure m => cases h
  | _ => rfl

section Pairs
variable {α β : Type} {R : α → β → Prop} {l : List α} {l' : List β} {k : Nat} {a : α} {b : β}

theorem exists_partner (h : List.Forall₂ R l l') (ha : l[k]? = some a) :
    ∃ b, l'[k]? = some b ∧ R a b := by
  induction h generalizing k with
  | nil => cases ha
  | cons hab _ ih =>
    cases k with
    | zero =>
      obtain rfl := Option.some.inj ha
      exact ⟨_, rfl, hab⟩
    | succ k => exact ih ha

theorem forall₂_set (h : List.Forall₂ R l l') (hab : R a b) :
    List.Forall₂ R (l.set k a) (l'.set k b) := by
  induction h generalizing k with
  | nil => exact .nil
  | cons hcd rest ih =>
    cases k with
    | zero => exact .cons hab rest
    | succ k => exact .cons hcd ih

theorem forall₂_set_right (h : List.Forall₂ R l l') (ha : l[k]? = some a) (hab : R a b) :
    List.Forall₂ R l (l'.set k b) := by
  obtain ⟨lt, rfl⟩ := List.getElem?_eq_some_iff.1 ha
  have next := forall₂_set (k := k) h hab
  rwa [List.set_getElem_self] at next

end Pairs

namespace Surroundings

variable {now : Nat} {m u v : Memory} {e : Event}

theorem timed_unique (h : timed now m e u) (h' : timed now m e v) : u = v := by
  obtain ⟨r, x⟩ := e
  cases r with
  | store c =>
    obtain h | ⟨err, rfl, rfl⟩ := h
    · obtain h' | ⟨err, rfl, rfl⟩ := h'
      · exact congrArg Prod.snd (h.trans h'.symm)
      · exact Memory.call_error h
    · obtain h' | ⟨_, _, rfl⟩ := h'
      · exact (Memory.call_error h').symm
      · rfl
  | _ => exact h.trans h'.symm

theorem timed_of_asks {d : Dispatcher} (he : d.asks e.request) (h : timed now m e u) : u = m := by
  obtain ⟨r, x⟩ := e
  cases r with
  | store c =>
    obtain rfl : c = .getInt d.commitEstimator.averageKey := he
    obtain h | ⟨err, -, rfl⟩ := h
    · exact congrArg Prod.snd h
    · rfl
  | _ => exact h

theorem timed_stays (he : e.request.isOffer = true) : timed now m e m := by
  obtain ⟨r, x⟩ := e
  cases r with
  | store c => cases he
  | _ => rfl

theorem timed_of_isOffer (he : e.request.isOffer = true) (h : timed now m e u) : u = m := by
  refine timed_eq h fun c hc => ?_
  rw [hc] at he
  cases he

end Surroundings

/-- Replicas that are alike but for their notices. -/
structure Twins (E : Prop) (w w' : Trail n) (P P' : Replicas n) : Prop where
  memory : P'.memory = P.memory
  ticks : ∀ i, (P.ticks i).program.Alike E (Results (SameIn E Outcome.uncounted))
    (P'.ticks i).program
  renewals : ∃ rs rs', Renewing w.renews P.jobs rs ∧ Renewing w'.renews P'.jobs rs' ∧
    List.Forall₂ (fun t t' => t.program.Alike E Eq t'.program) rs rs'

namespace Twins

variable {E : Prop} {w w' : Trail n} {P P' Q Q' : Replicas n} {mv mv' v v' : Move n}

theorem flip (h : Twins E w w' P P') : Twins E w' w P' P where
  memory := h.memory.symm
  ticks i := (h.ticks i).symm fun _ _ hab => hab.symm fun _ _ => SameIn.symm
  renewals := by
    obtain ⟨rs, rs', hrs, hrs', same⟩ := h.renewals
    refine ⟨rs', rs, hrs', hrs, ?_⟩
    exact (same.imp fun _ _ h => h.symm (Q := Eq) fun _ _ => Eq.symm).flip

theorem update_ticks (i : Fin n) (p p' : Thread (Except Error Outcome))
    (h : ∀ i, (P.ticks i).program.Alike E (Results (SameIn E Outcome.uncounted))
      (P'.ticks i).program)
    (hp : p.program.Alike E (Results (SameIn E Outcome.uncounted)) p'.program) (k : Fin n) :
    (Function.update P.ticks i p k).program.Alike E (Results (SameIn E Outcome.uncounted))
      (Function.update P'.ticks i p' k).program := by
  by_cases hk : k = i
  · subst hk
    simpa only [Function.update_self] using hp
  · simpa only [Function.update_of_ne hk] using h k

theorem skip (h : Twins E w w' P P') (step : P.Step mv Q) (unseen : w.glimpse mv = none) :
    Twins E (w.next mv) w' Q P' := by
  obtain ⟨rs, rs', hrs, hrs', same⟩ := h.renewals
  cases step with
  | @tick now i e q m later run =>
    have offer := Trail.glimpse_tick_eq_none unseen
    have alike := (h.ticks i).skip run (by simpa using offer)
    refine ⟨h.memory.trans (timed_of_isOffer offer run.single).symm, ?_, rs, rs', ?_, hrs', same⟩
    · have kept := update_ticks i ⟨(P.ticks i).events ++ [e], q⟩ (P'.ticks i) h.ticks alike
      rwa [Function.update_eq_self] at kept
    · obtain ⟨r, x⟩ := e
      cases r with
      | launch d notice => exact hrs.append_delivery ⟨d, d.within_deliver notice⟩
      | measure m => simpa [Trail.next, Trail.started, Event.renews, Event.starts] using hrs
      | _ => cases offer
  | @job now j t e q m later started run =>
    obtain ⟨⟨d, own⟩, set⟩ := hrs.delivery_at (Trail.glimpse_job_eq_none unseen) started
    obtain ⟨rest, asks⟩ := own.rest (fun _ hl => hl.elim) run
    exact ⟨h.memory.trans (timed_of_asks (asks e (by simp)) run.single).symm, h.ticks,
      rs, rs', (set ⟨_, q⟩ ⟨d, rest⟩).after_job, hrs', same⟩

theorem skip_right (h : Twins E w w' P P') (step : P'.Step mv Q) (unseen : w'.glimpse mv = none) :
    Twins E w (w'.next mv) P Q :=
  (h.flip.skip step unseen).flip

theorem step (h : Twins E w w' P P') (step : P.Step mv Q) (step' : P'.Step mv' Q')
    (hv : w.glimpse mv = some v) (hv' : w'.glimpse mv' = some v') (instant : v.now = v'.now)
    (actor : v.actor = v'.actor) : v.event.request = v'.event.request ∧
      (v.event = v'.event → Twins E (w.next mv) (w'.next mv') Q Q') := by
  obtain ⟨rs, rs', hrs, hrs', same⟩ := h.renewals
  cases step with
  | @tick now i e q m later run =>
    obtain ⟨loud, rfl⟩ := Trail.glimpse_tick hv
    cases step' with
    | job _ _ _ =>
      obtain ⟨-, rfl⟩ := Trail.glimpse_job hv'
      cases actor
    | @tick now' i' e' q' m' later' run' =>
      obtain ⟨loud', rfl⟩ := Trail.glimpse_tick hv'
      cases instant
      cases actor
      obtain ⟨request, alike⟩ := (h.ticks i).step run run' loud loud'
      refine ⟨request, fun he => ?_⟩
      obtain rfl : e = e' := he
      have memory : m' = m := timed_unique (h.memory ▸ run'.single) run.single
      refine ⟨memory, update_ticks _ _ _ h.ticks (alike rfl), _, _, hrs.append_starts loud,
        hrs'.append_starts loud, ?_⟩
      exact List.rel_append same (List.forall₂_same.2 fun t _ => Program.alike_self t.program)
  | @job now j t e q m later started run =>
    obtain ⟨hb, rfl⟩ := Trail.glimpse_job hv
    cases step' with
    | tick _ _ =>
      obtain ⟨-, rfl⟩ := Trail.glimpse_tick hv'
      cases actor
    | @job now' j' t' e' q' m' later' started' run' =>
      obtain ⟨hb', rfl⟩ := Trail.glimpse_job hv'
      cases instant
      have index : (w.renews.take j).count true = (w'.renews.take j').count true :=
        Actor.job.inj actor
      obtain ⟨own, found, set⟩ := hrs.renewal_at hb started
      obtain ⟨own', found', set'⟩ := hrs'.renewal_at hb' started'
      rw [← index] at found' set'
      obtain ⟨u, hu, alike⟩ := exists_partner same found
      obtain rfl : u = t' := Option.some.inj (hu.symm.trans found')
      obtain ⟨rest, renews⟩ := own.rest (fun _ => Loop.within_of_isRenewal) run
      obtain ⟨rest', renews'⟩ := own'.rest (fun _ => Loop.within_of_isRenewal) run'
      obtain ⟨request, alike'⟩ := alike.step run run'
        (Request.isOffer_of_isRenewal (renews e (by simp)))
        (Request.isOffer_of_isRenewal (renews' e' (by simp)))
      refine ⟨request, fun he => ?_⟩
      obtain rfl : e = e' := he
      have memory : m' = m := timed_unique (h.memory ▸ run'.single) run.single
      exact ⟨memory, h.ticks, _, _, (set ⟨_, q⟩ rest).after_job, (set' ⟨_, q'⟩ rest').after_job,
        forall₂_set same (alike' rfl)⟩

end Twins

section Runs
variable {E : Prop} {P₀ P₀' P P' Q : Replicas n} {ms ms' : List (Move n)}
variable {allowed allowed' : Replicas n → Move n → Prop}

theorem withoutNotices_concat (ms : List (Move n)) (mv : Move n) :
    withoutNotices (ms ++ [mv]) = withoutNotices ms ++ ((Trail.after ms).glimpse mv).toList := by
  rw [withoutNotices, Trail.after_concat]
  rfl

theorem withoutNotices_of_none {mv : Move n} (h : (Trail.after ms).glimpse mv = none) :
    withoutNotices (ms ++ [mv]) = withoutNotices ms := by
  rw [withoutNotices_concat, h]
  exact List.append_nil _

theorem withoutNotices_of_some {mv v : Move n} (h : (Trail.after ms).glimpse mv = some v) :
    withoutNotices (ms ++ [mv]) = withoutNotices ms ++ [v] := by
  rw [withoutNotices_concat, h]
  rfl

theorem twins_of_reaches (first : Twins E (.after []) (.after []) P₀ P₀')
    (run : Reaches P₀ allowed ms P) (run' : Reaches P₀' allowed' ms' P')
    (same : withoutNotices ms = withoutNotices ms') : Twins E (.after ms) (.after ms') P P' := by
  induction run generalizing ms' P' with
  | start =>
    induction run' with
    | start => exact first
    | @step ms' mv' P' Q' before' ok' step' ih' =>
      cases hv' : (Trail.after ms').glimpse mv' with
      | none =>
        rw [withoutNotices_of_none hv'] at same
        rw [Trail.after_concat]
        exact (ih' same).skip_right step' hv'
      | some v' =>
        rw [withoutNotices_of_some hv'] at same
        cases List.append_ne_nil_of_right_ne_nil _ (by simp) same.symm
  | @step ms mv P Q before ok step ih =>
    cases hv : (Trail.after ms).glimpse mv with
    | none =>
      rw [withoutNotices_of_none hv] at same
      rw [Trail.after_concat]
      exact (ih run' same).skip step hv
    | some v =>
      rw [withoutNotices_of_some hv] at same
      induction run' with
      | start => cases List.append_ne_nil_of_right_ne_nil _ (by simp) same
      | @step ms' mv' P' Q' before' ok' step' ih' =>
        cases hv' : (Trail.after ms').glimpse mv' with
        | none =>
          rw [withoutNotices_of_none hv'] at same
          rw [Trail.after_concat ms']
          exact (ih' same).skip_right step' hv'
        | some v' =>
          rw [withoutNotices_of_some hv'] at same
          obtain ⟨until', last⟩ := List.append_inj' same rfl
          obtain rfl : v = v' := List.singleton_inj.1 last
          rw [Trail.after_concat, Trail.after_concat]
          exact ((ih before' until').step step step' hv hv' rfl rfl).2 rfl

theorem SameAnswers.shorten {u u' v v' : List (Move n)} (h : SameAnswers v v') (hu : u <+: v)
    (hu' : u' <+: v') : SameAnswers u u' :=
  fun before mv mv' hmv hmv' => h before mv mv' (hmv.trans hu) (hmv'.trans hu')

theorem comparable_concat {u u' : List (Move n)} {v v' : Move n}
    (left : u <+: u' ++ [v'] ∨ u' ++ [v'] <+: u) (right : u ++ [v] <+: u' ∨ u' <+: u ++ [v])
    (same : u = u' → v = v') : u ++ [v] <+: u' ++ [v'] ∨ u' ++ [v'] <+: u ++ [v] := by
  obtain left | left := left
  · obtain rfl | left := List.prefix_concat_iff.1 left
    · exact .inr (List.prefix_append _ _)
    · obtain right | right := right
      · exact .inl (right.trans (List.prefix_append _ _))
      · obtain rfl | right := List.prefix_concat_iff.1 right
        · exact .inl (List.prefix_append _ _)
        · obtain rfl : u = u' := left.eq_of_length_le right.length_le
          rw [same rfl]
          exact .inl (List.prefix_refl _)
  · exact .inr (left.trans (List.prefix_append _ _))

/-- As long as the same one moves next and is answered in the same way, the moves are the same,
notices apart. -/
theorem withoutNotices_comparable (first : Twins E (.after []) (.after []) P₀ P₀')
    (run : Reaches P₀ allowed ms P) (run' : Reaches P₀' allowed' ms' P')
    (answers : SameAnswers (withoutNotices ms) (withoutNotices ms')) :
    withoutNotices ms <+: withoutNotices ms' ∨ withoutNotices ms' <+: withoutNotices ms := by
  induction run generalizing ms' P' with
  | start => exact .inl (List.nil_prefix)
  | @step ms mv P Q before ok step ih =>
    cases hv : (Trail.after ms).glimpse mv with
    | none =>
      rw [withoutNotices_of_none hv] at answers ⊢
      exact ih run' answers
    | some v =>
      rw [withoutNotices_of_some hv] at answers ⊢
      induction run' with
      | start => exact .inr (List.nil_prefix)
      | @step ms' mv' P' Q' before' ok' step' ih' =>
        cases hv' : (Trail.after ms').glimpse mv' with
        | none =>
          rw [withoutNotices_of_none hv'] at answers ⊢
          exact ih' answers
        | some v' =>
          have left := ih (before'.step ok' step')
          rw [withoutNotices_of_some hv'] at answers left ⊢
          refine comparable_concat
            (left (answers.shorten (List.prefix_append _ _) (List.prefix_refl _)))
            (ih' (answers.shorten (List.prefix_refl _) (List.prefix_append _ _))) fun until' => ?_
          have twins := twins_of_reaches first before before' until'
          rw [until'] at answers
          obtain ⟨instant, actor, event⟩ :=
            answers _ v v' (List.prefix_refl _) (List.prefix_refl _)
          have request := (twins.step step step' hv hv' instant actor).1
          obtain ⟨now, a, e⟩ := v
          obtain ⟨now', a', e'⟩ := v'
          obtain rfl : now = now' := instant
          obtain rfl : a = a' := actor
          obtain rfl : e = e' := event request
          rfl

theorem exists_offering {w : Trail n} {i : Fin n} {es : List Event}
    {q : Program (Except Error Outcome)} (run' : Reaches P₀' (fun _ _ => True) ms' P')
    (twins : Twins E w (.after ms') P P')
    (run : (P'.ticks i).program.Leads (timed P'.now) P'.memory es q P'.memory)
    (offers : ∀ e ∈ es, e.request.isOffer = true) :
    ∃ ms'' Q', Reaches P₀' (fun _ _ => True) ms'' Q' ∧ Q'.now = P'.now ∧
      withoutNotices ms'' = withoutNotices ms' ∧ Twins E w (.after ms'') P Q' ∧
      (Q'.ticks i).program.Leads anyhow () [] q () ∧ ∀ k ≠ i, Q'.ticks k = P'.ticks k := by
  induction es generalizing ms' P' with
  | nil => exact ⟨ms', P', run', rfl, rfl, twins, run.anywhere anyhow (), fun _ _ => rfl⟩
  | cons e es ih =>
    obtain ⟨r, u, first, rest⟩ := (show Program.Leads _ _ _ ([e] ++ es) _ _ from run).split
    have offer := offers e (by simp)
    obtain rfl : u = P'.memory := timed_of_isOffer offer first.single
    have step : P'.Step ⟨P'.now, .tick i, e⟩ ⟨P'.now, P'.memory,
        Function.update P'.ticks i ⟨(P'.ticks i).events ++ [e], r⟩,
        P'.jobs ++ e.starts.map (Thread.mk [])⟩ := .tick (Nat.le_refl _) first
    have unseen : (Trail.after ms').glimpse ⟨P'.now, .tick i, e⟩ = none := by
      simp [Trail.glimpse, offer]
    have after := twins.skip_right step unseen
    rw [← Trail.after_concat] at after
    obtain ⟨ms'', Q', reaches, now, seen, twins', stands, others⟩ :=
      ih (run'.step trivial step) after (by simpa only [Function.update_self] using rest)
        fun e he => offers e (by simp [he])
    refine ⟨ms'', Q', reaches, now, seen.trans (withoutNotices_of_none unseen), twins', stands, ?_⟩
    intro k hk
    rw [others k hk]
    exact Function.update_of_ne hk _ _

theorem exists_step {mv v : Move n} (run' : Reaches P₀' (fun _ _ => True) ms' P')
    (twins : Twins E (.after ms) (.after ms') P P') (step : P.Step mv Q) (behind : P'.now ≤ P.now)
    (hv : (Trail.after ms).glimpse mv = some v) :
    ∃ ms'' P'' mv' Q', Reaches P₀' (fun _ _ => True) ms'' P'' ∧
      withoutNotices ms'' = withoutNotices ms' ∧ Twins E (.after ms) (.after ms'') P P'' ∧
      P''.Step mv' Q' ∧ (Trail.after ms'').glimpse mv' = some v := by
  cases step with
  | @tick now i e q m later run =>
    obtain ⟨loud, rfl⟩ := Trail.glimpse_tick hv
    obtain ⟨r, z⟩ := e
    obtain ⟨k, before, answered, -⟩ := run.asks
    have asks := (twins.ticks i).skip before (by simp)
    obtain ⟨es, k', offers, reach, -⟩ := asks.ready (S := timed P'.now) (w := P'.memory) loud
      fun e offer => timed_stays offer
    obtain ⟨ms'', P'', reaches, instant, seen, twins', stands, -⟩ :=
      exists_offering run' twins reach offers
    rw [← twins'.memory] at answered
    have next := (stands.anywhere (timed now) P''.memory).trans (.ask answered (.refl _ m))
    refine ⟨ms'', P'', _, _, reaches, seen, twins', .tick (by omega) next, ?_⟩
    simp only [Trail.glimpse, loud]
    rfl
  | @job now j t e q m later started run =>
    obtain ⟨hb, rfl⟩ := Trail.glimpse_job hv
    obtain ⟨r, z⟩ := e
    obtain ⟨rs, rs', hrs, hrs', same⟩ := twins.renewals
    obtain ⟨own, found, -⟩ := hrs.renewal_at hb started
    obtain ⟨u, hu, alike⟩ := exists_partner same found
    obtain ⟨j', hb', count, started'⟩ := hrs'.exists_index hu
    have own' := (hrs'.renewal_at hb' started').1
    obtain ⟨k, before, answered, -⟩ := run.asks
    have loud := Request.isOffer_of_isRenewal
      ((own.rest (fun _ => Loop.within_of_isRenewal) run).2 _ List.mem_cons_self)
    obtain ⟨es, k', offers, reach, -⟩ := (alike.skip before (by simp)).ready
      (S := timed P'.now) (w := P'.memory) loud fun e offer => timed_stays offer
    have renews := (own'.rest (fun _ => Loop.within_of_isRenewal) reach).2
    obtain rfl : es = [] := by
      refine List.eq_nil_iff_forall_not_mem.2 fun e he => ?_
      have quiet := Request.isOffer_of_isRenewal (renews e he)
      rw [offers e he] at quiet
      cases quiet
    rw [← twins.memory] at answered
    have next := (reach.anywhere (timed now) P'.memory).trans (.ask answered (.refl _ m))
    refine ⟨ms', P', _, _, run', rfl, twins, .job (by omega) started' next, ?_⟩
    simp only [Trail.glimpse, hb', count, if_true]

/-- What happens with one transport can happen with another, notices apart. -/
theorem exists_twin (first : Twins E (.after []) (.after []) P₀ P₀') (instant : P₀'.now ≤ P₀.now)
    (run : Reaches P₀ allowed ms P) :
    ∃ ms' P', Reaches P₀' (fun _ _ => True) ms' P' ∧ P'.now ≤ P.now ∧
      withoutNotices ms' = withoutNotices ms ∧ Twins E (.after ms) (.after ms') P P' := by
  induction run with
  | start => exact ⟨[], P₀', .start, instant, rfl, first⟩
  | @step ms mv P Q before ok step ih =>
    obtain ⟨ms', P', run', behind, seen, twins⟩ := ih
    have later := step.now_le
    have now := step.now_eq
    cases hv : (Trail.after ms).glimpse mv with
    | none =>
      refine ⟨ms', P', run', by omega, seen.trans (withoutNotices_of_none hv).symm, ?_⟩
      rw [Trail.after_concat]
      exact twins.skip step hv
    | some v =>
      obtain ⟨ms'', P'', mv', Q', reaches, seen', twins', step', hv'⟩ :=
        exists_step run' twins step behind hv
      have same := Trail.glimpse_now hv
      have same' := Trail.glimpse_now hv'
      have now' := step'.now_eq
      refine ⟨ms'' ++ [mv'], Q', reaches.step trivial step', by omega, ?_, ?_⟩
      · rw [withoutNotices_of_some hv', withoutNotices_of_some hv, seen', seen]
      · rw [Trail.after_concat, Trail.after_concat]
        exact (twins'.step step step' hv hv' rfl rfl).2 rfl

theorem exists_ended {w : Trail n} (ticks : List (Fin n))
    (run' : Reaches P₀' (fun _ _ => True) ms' P') (twins : Twins E w (.after ms') P P') :
    ∃ ms'' Q', Reaches P₀' (fun _ _ => True) ms'' Q' ∧ withoutNotices ms'' = withoutNotices ms' ∧
      Twins E w (.after ms'') P Q' ∧ ∀ i ∈ ticks, ∀ r, (P.ticks i).program = .done r →
        ∃ r', (Q'.ticks i).program = .done r' := by
  induction ticks with
  | nil => exact ⟨ms', P', run', rfl, twins, by simp⟩
  | cons i ticks ih =>
    obtain ⟨ms₁, P₁, run₁, seen₁, twins₁, ended₁⟩ := ih
    cases hr : (P.ticks i).program.result? with
    | none =>
      refine ⟨ms₁, P₁, run₁, seen₁, twins₁, fun k hk r hdone => ?_⟩
      obtain rfl | hk := List.mem_cons.1 hk
      · rw [hdone] at hr
        cases hr
      · exact ended₁ k hk r hdone
    | some r =>
      have alike := twins₁.ticks i
      rw [Program.eq_done_of_result? hr] at alike
      obtain ⟨es, r', offers, reach⟩ := alike.ends (S := timed P₁.now) (w := P₁.memory)
        fun e offer => timed_stays offer
      obtain ⟨ms₂, P₂, run₂, -, seen₂, twins₂, stands, others⟩ :=
        exists_offering run₁ twins₁ reach offers
      refine ⟨ms₂, P₂, run₂, seen₂.trans seen₁, twins₂, fun k hk r hdone => ?_⟩
      by_cases hki : k = i
      · subst hki
        exact ⟨r', stands.eq_done⟩
      · rw [others k hki]
        exact ended₁ k ((List.mem_cons.1 hk).resolve_left hki) r hdone

end Runs

namespace Setup

variable (s : Setup) (task : Fin n → Task)

theorem twins_together (transport : TransportConfig) (present : Bool) (now : Nat) (m : Memory) :
    Twins (present = s.transport) (.after []) (.after []) (s.together task now m)
      ((s.rewired transport present).together task now m) where
  memory := rfl
  ticks i := alike_tick (s := s) (t := s.config.transport) (b := s.transport) Eq.symm (task i)
  renewals := ⟨[], [], .nil, .nil, .nil⟩

variable {s task} {now : Nat} {m : Memory} {ms : List (Move n)} {P : Replicas n}

/-- Another transport, or none, changes nothing but the notices: the same moves can be made, and
they are, as long as the same one moves next and is answered in the same way. Then the store is the
same, and outcomes differ in the number of sends at most, and only if there was a transport before
and not now, or the other way round. -/
theorem sweeps_regardless_of_transport (transport : TransportConfig) (present : Bool)
    (run : Reaches (s.together task now m) (fun _ _ => True) ms P) :
    (∃ ms' P',
      Reaches ((s.rewired transport present).together task now m) (fun _ _ => True) ms' P' ∧
      withoutNotices ms' = withoutNotices ms ∧
      ∀ i r, (P.ticks i).program = .done r → ∃ r', (P'.ticks i).program = .done r') ∧
    ∀ ms' P',
      Reaches ((s.rewired transport present).together task now m) (fun _ _ => True) ms' P' →
      SameAnswers (withoutNotices ms) (withoutNotices ms') →
      (withoutNotices ms <+: withoutNotices ms' ∨ withoutNotices ms' <+: withoutNotices ms) ∧
      (withoutNotices ms' = withoutNotices ms → P'.memory = P.memory ∧
        ∀ i r r', (P.ticks i).program = .done r → (P'.ticks i).program = .done r' →
          r'.map Outcome.uncounted = r.map Outcome.uncounted ∧
            (present = s.transport → r' = r)) := by
  have first := s.twins_together task transport present now m
  constructor
  · obtain ⟨ms₁, P₁, run₁, -, seen₁, twins₁⟩ := exists_twin first (Nat.le_refl _) run
    obtain ⟨ms₂, P₂, run₂, seen₂, -, ended⟩ := exists_ended (List.finRange n) run₁ twins₁
    exact ⟨ms₂, P₂, run₂, seen₂.trans seen₁, fun i => ended i (List.mem_finRange i)⟩
  · intro ms' P' run' answers
    refine ⟨withoutNotices_comparable first run run' answers, fun same => ?_⟩
    have twins := twins_of_reaches first run run' same.symm
    refine ⟨twins.memory, fun i r r' hr hr' => ?_⟩
    have alike := twins.ticks i
    rw [hr, hr'] at alike
    obtain ⟨rest, all⟩ := alike.result.sameIn
    exact ⟨rest.symm, fun h => (all h).symm⟩

open Simulation

def announcingCalls : List (Call 1) :=
  List.replicate 15 { actor := .tick 0, chain := fun c => { c with head := 100 } } ++
    List.replicate 6 { actor := .job 1 } ++ List.replicate 15 { actor := .tick 0 }

def announcingTick : List (Replicas 1 × Move 1) × Replicas 1 × World :=
  perform announcingCalls (plainSetup.together (fun _ => .maturity) 0 .empty) depositWorld

theorem sweeps_regardless_of_transport_announcingTick : ∃ ms' P',
    Reaches ((plainSetup.rewired .absent false).together (fun _ => .maturity) 0 .empty)
      (fun _ _ => True) ms' P' ∧
    withoutNotices ms' = withoutNotices (announcingTick.1.map Prod.snd) ∧
    P'.memory.ints (plainSetup.key .head) = some 100 ∧
    ∃ r', (P'.ticks 0).program = .done r' ∧
      r'.map Outcome.uncounted = .ok (.advanced 0 100 0) := by
  have run : Reaches (plainSetup.together (fun _ => .maturity) 0 .empty) (fun _ _ => True)
      (announcingTick.1.map Prod.snd) announcingTick.2.1 :=
    (reaches_perform announcingCalls .start rfl (Nat.le_refl _) fun _ _ => trivial).1
  have done : (announcingTick.2.1.ticks 0).program = .done (.ok (.advanced 0 100 2)) :=
    Program.eq_done_of_result? (by decide +kernel)
  have head : announcingTick.2.1.memory.ints (plainSetup.key .head) = some 100 := by
    decide +kernel
  obtain ⟨⟨ms', P', run', seen, ended⟩, others⟩ :=
    sweeps_regardless_of_transport .absent false run
  obtain ⟨r', done'⟩ := ended 0 _ done
  have answers : SameAnswers (withoutNotices (announcingTick.1.map Prod.snd))
      (withoutNotices ms') := by
    rw [seen]
    exact .refl _
  obtain ⟨memory, results⟩ := (others ms' P' run' answers).2 seen
  exact ⟨ms', P', run', seen, memory ▸ head, r', done', (results 0 _ r' done done').1⟩

end Setup
end BridgeNotifier
