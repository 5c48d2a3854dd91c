import BridgeNotifier.Sweep.Scan
import BridgeNotifier.Sweep.Tick
set_option autoImplicit false

/-!
# Executions

A program among surroundings that may answer its requests in more ways than one. An execution may
stop anywhere, so what holds of all executions holds at every point of a run. `Ensures` computes
what has to be shown for that, request by request, with loops taken at their contracts.
-/
namespace BridgeNotifier

structure Event where
  request : Request
  reply : request.Reply

namespace Event

def error? : Event → Option Error
  | ⟨.store _, .error e⟩ => some e
  | ⟨.chain _, .error e⟩ => some e
  | ⟨.records _, .error e⟩ => some e
  | _ => none

end Event

/-- Which events can happen at a state, and which state each of them may lead to. -/
abbrev Surroundings (σ : Type) := σ → Event → σ → Prop

namespace Surroundings

variable {σ ω : Type}

def only (S : Surroundings σ) (allowed : Event → Prop) : Surroundings σ :=
  fun s e t => allowed e ∧ S s e t

/-- The surroundings with somebody who takes notes of the events. -/
def noted (S : Surroundings σ) (note : ω → Event → ω) : Surroundings (σ × ω) :=
  fun s e t => S s.1 e t.1 ∧ t.2 = note s.2 e

def witnessed (S : Surroundings σ) (see : ω → Event → σ → ω) : Surroundings (σ × ω) :=
  fun s e t => S s.1 e t.1 ∧ t.2 = see s.2 e t.1

end Surroundings

namespace Program

variable {σ τ ω α β : Type} {S : Surroundings σ}

def result? : Program α → Option α
  | done a => some a
  | _ => none

theorem eq_done_of_result? {p : Program α} {a : α} (h : p.result? = some a) : p = done a := by
  cases p with
  | done b => exact congrArg done (Option.some.inj h)
  | ask r k => exact absurd h (by simp [result?])
  | call l k => exact absurd h (by simp [result?])

/-- A stretch of an execution: what is left of the program, and the events on the way. -/
inductive Leads (S : Surroundings σ) : Program α → σ → List Event → Program α → σ → Prop where
  | refl (p : Program α) (s : σ) : Leads S p s [] p s
  | ask {r : Request} {k : r.Reply → Program α} {x : r.Reply} {s t u : σ} {es : List Event}
      {q : Program α} (h : S s ⟨r, x⟩ t) (rest : Leads S (k x) t es q u) :
      Leads S (.ask r k) s (⟨r, x⟩ :: es) q u
  | call {l : Loop} {k : l.Result → Program α} {s u : σ} {es : List Event} {q : Program α}
      (rest : Leads S (l.body.bind k) s es q u) : Leads S (.call l k) s es q u

theorem result?_of_leads_cons {p q : Program α} {s t : σ} {e : Event} {es : List Event}
    (run : Leads S p s (e :: es) q t) : p.result? = none := by
  cases run <;> rfl

namespace Leads

variable {p q : Program α} {s t : σ} {es : List Event}

theorem map {T : Surroundings τ} (f : σ → τ) (hf : ∀ s e t, S s e t → T (f s) e (f t))
    (h : Leads S p s es q t) : Leads T p (f s) es q (f t) := by
  induction h with
  | refl p s => exact .refl p (f s)
  | ask h _ ih => exact .ask (hf _ _ _ h) ih
  | call _ ih => exact .call ih

theorem only {allowed : Event → Prop} (h : Leads S p s es q t) (ha : ∀ e ∈ es, allowed e) :
    Leads (S.only allowed) p s es q t := by
  induction h with
  | refl p s => exact .refl p s
  | ask h _ ih => exact .ask ⟨ha _ (by simp), h⟩ (ih fun e he => ha e (by simp [he]))
  | call _ ih => exact .call (ih ha)

theorem noted (note : ω → Event → ω) (h : Leads S p s es q t) (o : ω) :
    Leads (S.noted note) p (s, o) es q (t, es.foldl note o) := by
  induction h generalizing o with
  | refl p s => exact .refl p (s, o)
  | ask h _ ih => exact .ask ⟨h, rfl⟩ (ih _)
  | call _ ih => exact .call (ih o)

theorem foldl_or (test : Event → Bool) (es : List Event) (b : Bool) :
    es.foldl (fun b e => b || test e) b = (b || es.any test) := by
  induction es generalizing b with
  | nil => exact (Bool.or_false b).symm
  | cons e es ih => rw [List.foldl_cons, ih, List.any_cons, Bool.or_assoc]

theorem noticed (test : Event → Bool) (h : Leads S p s es q t) :
    Leads (S.noted fun b e => b || test e) p (s, false) es q (t, es.any test) := by
  have noted := h.noted (fun b e => b || test e) false
  rwa [foldl_or, Bool.false_or] at noted

theorem witnessed (see : ω → Event → σ → ω) (h : Leads S p s es q t) (o : ω) :
    ∃ o', Leads (S.witnessed see) p (s, o) es q (t, o') := by
  induction h generalizing o with
  | refl p s => exact ⟨o, .refl p (s, o)⟩
  | @ask r k x s t u es q h _ ih =>
    obtain ⟨o', ho'⟩ := ih (see o ⟨r, x⟩ t)
    exact ⟨o', .ask ⟨h, rfl⟩ ho'⟩
  | call _ ih =>
    obtain ⟨o', ho'⟩ := ih o
    exact ⟨o', .call ho'⟩

theorem same {f : σ → τ} (h : Leads S p s es q t)
    (hf : ∀ e ∈ es, ∀ s t, S s e t → f t = f s) : f t = f s := by
  induction h with
  | refl p s => rfl
  | ask h _ ih => exact (ih fun e he => hf e (by simp [he])).trans (hf _ (by simp) _ _ h)
  | call _ ih => exact ih hf

theorem trans {q' : Program α} {u : σ} {es' : List Event} (h : Leads S p s es q t)
    (h' : Leads S q t es' q' u) : Leads S p s (es ++ es') q' u := by
  induction h with
  | refl p s => exact h'
  | ask h _ ih => exact .ask h (ih h')
  | call _ ih => exact .call (ih h')

theorem split {es' : List Event} (h : Leads S p s (es ++ es') q t) :
    ∃ r u, Leads S p s es r u ∧ Leads S r u es' q t := by
  generalize hes : es ++ es' = whole at h
  induction h generalizing es with
  | refl p s =>
    obtain ⟨rfl, rfl⟩ := List.append_eq_nil_iff.1 hes
    exact ⟨p, s, .refl p s, .refl p s⟩
  | @ask r k x s t u whole q h rest ih =>
    cases es with
    | nil =>
      obtain rfl : es' = ⟨r, x⟩ :: whole := hes
      exact ⟨.ask r k, s, .refl _ s, .ask h rest⟩
    | cons e es =>
      obtain ⟨rfl, tail⟩ := List.cons.inj hes
      obtain ⟨r', u', first, last⟩ := ih tail
      exact ⟨r', u', .ask h first, last⟩
  | call rest ih =>
    obtain ⟨r', u', first, last⟩ := ih hes
    exact ⟨r', u', .call first, last⟩

theorem eq_of_nil (h : Leads S p s [] q t) : t = s := by
  generalize hes : ([] : List Event) = es at h
  induction h with
  | refl p s => rfl
  | ask h _ _ => cases hes
  | call _ ih => exact ih hes

theorem single {e : Event} (h : Leads S p s [e] q t) : S s e t := by
  generalize hes : [e] = es at h
  induction h with
  | refl p s => cases hes
  | ask h rest _ =>
    cases hes
    obtain rfl := rest.eq_of_nil
    exact h
  | call _ ih => exact ih hes

theorem happened (h : Leads S p s es q t) : ∀ e ∈ es, ∃ u v, S u e v := by
  induction h with
  | refl p s => exact fun _ he => nomatch he
  | ask h _ ih => exact List.forall_mem_cons.2 ⟨⟨_, _, h⟩, ih⟩
  | call _ ih => exact ih

theorem last {e : Event} (h : Leads S p s (es ++ [e]) q t) : ∃ u, S u e t := by
  generalize hes : es ++ [e] = es' at h
  induction h generalizing es with
  | refl p s => exact absurd hes (by simp)
  | @ask r k x s t u es' q h rest ih =>
    cases es with
    | nil =>
      obtain ⟨rfl, rfl⟩ := List.cons.inj hes
      obtain rfl := rest.eq_of_nil
      exact ⟨s, h⟩
    | cons e' es => exact ih (List.cons.inj hes).2
  | call _ ih => exact ih hes

end Leads
end Program

/-- What a loop may rely on when a round begins, and what it comes to. -/
structure Contract (σ : Type) where
  needs : Loop → σ → Prop
  gives : (l : Loop) → σ → l.Result → σ → Prop

namespace Program

variable {σ α β : Type} (S : Surroundings σ) (I : σ → Prop) (C : Contract σ)

/-- Whatever the surroundings answer, `I` holds after every request and `Q` at the end. -/
def Ensures : Program α → σ → (α → σ → Prop) → Prop
  | done a, s, Q => Q a s
  | ask r k, s, Q => ∀ x t, S s ⟨r, x⟩ t → I t ∧ Ensures (k x) t Q
  | call l k, s, Q => C.needs l s ∧ ∀ x t, I t → C.gives l s x t → Ensures (k x) t Q

variable {S I C}
variable {p : Program α} {s t : σ} {Q R : α → σ → Prop}

theorem Ensures.mono (h : p.Ensures S I C s Q) (hQ : ∀ a t, Q a t → R a t) :
    p.Ensures S I C s R := by
  induction p generalizing s with
  | done a => exact hQ a s h
  | ask r k ih => exact fun x t ht => ⟨(h x t ht).1, ih x (h x t ht).2⟩
  | call l k ih => exact ⟨h.1, fun x t hI ht => ih x (h.2 x t hI ht)⟩

theorem ensures_bind {f : α → Program β} {Q : β → σ → Prop}
    (h : p.Ensures S I C s fun a t => (f a).Ensures S I C t Q) :
    (p.bind f).Ensures S I C s Q := by
  induction p generalizing s with
  | done a => exact h
  | ask r k ih => exact fun x t ht => ⟨(h x t ht).1, ih x (h x t ht).2⟩
  | call l k ih => exact ⟨h.1, fun x t hI ht => ih x (h.2 x t hI ht)⟩

theorem Ensures.keeping (h : p.Ensures S I C s Q) (hI : I s) :
    p.Ensures S I C s fun a t => I t ∧ Q a t := by
  induction p generalizing s with
  | done a => exact ⟨hI, h⟩
  | ask r k ih => exact fun x t ht => ⟨(h x t ht).1, ih x (h x t ht).2 (h x t ht).1⟩
  | call l k ih => exact ⟨h.1, fun x t hx ht => ih x (h.2 x t hx ht) hx⟩

theorem Ensures.weaken {J : σ → Prop} {D : Contract σ} (h : p.Ensures S I C s Q) (hI : I s)
    (weaker : ∀ t, I t → J t) (needs : ∀ l t, I t → C.needs l t → D.needs l t)
    (gives : ∀ l t x u, I t → C.needs l t → D.gives l t x u → I u ∧ C.gives l t x u) :
    p.Ensures S J D s fun a t => I t ∧ Q a t := by
  induction p generalizing s with
  | done a => exact ⟨hI, h⟩
  | ask r k ih => exact fun x t ht => ⟨weaker t (h x t ht).1, ih x (h x t ht).2 (h x t ht).1⟩
  | call l k ih =>
    refine ⟨needs l s hI h.1, fun x t _ given => ?_⟩
    obtain ⟨kept, comes⟩ := gives l s x t hI h.1 given
    exact ih x (h.2 x t kept comes) kept

end Program

def Contract.Kept {σ : Type} (S : Surroundings σ) (I : σ → Prop) (C : Contract σ) : Prop :=
  ∀ l s, I s → C.needs l s → l.body.Ensures S I C s (C.gives l s)

namespace Program

variable {σ α : Type} {S : Surroundings σ} {I : σ → Prop} {C : Contract σ}
variable {p q : Program α} {s t : σ} {es : List Event} {Q : α → σ → Prop}

theorem Ensures.rest (h : p.Ensures S I C s Q) (hC : C.Kept S I) (hI : I s)
    (run : Leads S p s es q t) : I t ∧ q.Ensures S I C t Q := by
  induction run with
  | refl p s => exact ⟨hI, h⟩
  | ask hx _ ih =>
    obtain ⟨hI', h'⟩ := h _ _ hx
    exact ih h' hI'
  | @call l k s u es q _ ih =>
    have body := (hC l s hI h.1).keeping hI
    exact ih (ensures_bind (body.mono fun x t hx => h.2 x t hx.1 hx.2)) hI

theorem Ensures.invariant (h : p.Ensures S I C s Q) (hC : C.Kept S I) (hI : I s)
    (run : Leads S p s es q t) : I t :=
  (h.rest hC hI run).1

theorem Ensures.result {a : α} (h : p.Ensures S I C s Q) (hC : C.Kept S I) (hI : I s)
    (run : Leads S p s es (.done a) t) : Q a t :=
  (h.rest hC hI run).2

end Program
end BridgeNotifier

namespace BridgeNotifier.Setup

variable (s : Setup)

def recordHead (oldHead newHead dispatched : UInt64) : Routine Outcome := do
  let _ ← Checkpoint.advance s.config.namespaceName .head newHead
  Routine.measure (.checkpoint .head newHead)
  return .advanced oldHead newHead dispatched

def recordBatch (r : Role) (stored latest dispatched : UInt64) : Routine Outcome := do
  let _ ← Checkpoint.advance s.config.namespaceName r.batch latest
  Routine.measure (.checkpoint r.batch latest)
  s.recordDuration r
  return .advanced stored latest dispatched

def settleBatch (r : Role) (newCeiling stored latest dispatched : UInt64) : Routine Outcome := do
  if ← Checkpoint.advance s.config.namespaceName r.ceiling newCeiling then
    Routine.measure (.checkpoint r.ceiling newCeiling)
  s.recordBatch r stored latest dispatched

end BridgeNotifier.Setup
