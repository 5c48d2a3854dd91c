import BridgeNotifier.Proofs.Execution
import BridgeNotifier.Proofs.StoreCalls
import BridgeNotifier.Store.Memory
set_option autoImplicit false

/-!
# What routines ensure

The rules for routines, which end at their first failed call, and for the operations they are made
of. Most requests concern nobody else: they neither change a number of the shared store nor ask for
a page, start a send or read the depth.
-/
namespace BridgeNotifier

namespace Event

/-- The event changes no number of the store, and no scan, send or depth comes of it. -/
def isQuiet : Event → Bool
  | ⟨.store (.setInt _ _), .ok _⟩ => false
  | ⟨.records _, _⟩ | ⟨.launch _ _, _⟩ | ⟨.depth, _⟩ => false
  | _ => true

end Event

namespace Surroundings

variable {σ : Type}

/-- Surroundings whose states show the numbers of the store and change by loud events only. What
follows a failed call is `E`. -/
structure Shows (S : Surroundings σ) (ints : σ → String → Option UInt64) (E : Error → σ → Prop) :
    Prop where
  quiet : ∀ {s e t}, S s e t → e.isQuiet = true → t = s
  read : ∀ {s k v t}, S s ⟨.store (.getInt k), .ok v⟩ t → v = ints s k
  write : ∀ {s k v t}, S s ⟨.store (.setInt k v), .ok ()⟩ t →
    ints t = Function.update (ints s) k (some v)
  records : ∀ {s c x t}, S s ⟨.records c, x⟩ t → ints t = ints s
  launch : ∀ {s d n x t}, S s ⟨.launch d n, x⟩ t → ints t = ints s
  depth : ∀ {s x t}, S s ⟨.depth, x⟩ t → ints t = ints s
  failed : ∀ {s e t err}, S s e t → e.error? = some err → E err t

end Surroundings

namespace Routine

variable {σ α β : Type}

def Ends (E : Error → σ → Prop) (Q : α → σ → Prop) : Except Error α → σ → Prop
  | .ok a, t => Q a t
  | .error e, t => E e t

/-- Whatever the surroundings answer, `I` holds after every request, and at the end `Q`, or `E` if
the routine failed. -/
def Ensures (S : Surroundings σ) (I : σ → Prop) (C : Contract σ) (E : Error → σ → Prop)
    (p : Routine α) (s : σ) (Q : α → σ → Prop) : Prop :=
  p.run.Ensures S I C s (Ends E Q)

variable {S : Surroundings σ} {I : σ → Prop} {C : Contract σ} {E : Error → σ → Prop}
variable {s : σ} {Q R : α → σ → Prop}

theorem Ensures.mono {p : Routine α} (h : p.Ensures S I C E s Q) (hQ : ∀ a t, Q a t → R a t) :
    p.Ensures S I C E s R := by
  refine Program.Ensures.mono h fun r t hr => ?_
  cases r with
  | ok a => exact hQ a t hr
  | error e => exact hr

theorem Ensures.keeping {p : Routine α} (h : p.Ensures S I C E s Q) (hI : I s) :
    p.Ensures S I C E s fun a t => I t ∧ Q a t := by
  refine (Program.Ensures.keeping h hI).mono fun r t hr => ?_
  cases r with
  | ok a => exact hr
  | error e => exact hr.2

theorem ensures_pure {a : α} (h : Q a s) : (pure a : Routine α).Ensures S I C E s Q :=
  h

theorem ensures_bind {p : Routine α} {f : α → Routine β} {Q : β → σ → Prop}
    (h : p.Ensures S I C E s fun a t => (f a).Ensures S I C E t Q) :
    (p >>= f).Ensures S I C E s Q := by
  refine Program.ensures_bind (f := ExceptT.bindCont f) (Program.Ensures.mono h fun r t hr => ?_)
  cases r with
  | ok a => exact hr
  | error e => exact hr

theorem ensures_lift {p : Program α} (h : p.Ensures S I C s Q) :
    Routine.Ensures S I C E (ExceptT.lift p) s Q :=
  Program.ensures_bind (h.mono fun _ _ ha => ha)

theorem ensures_store {c : StoreCall} {Q : c.Answer → σ → Prop}
    (h : ∀ x t, S s ⟨.store c, x⟩ t → I t ∧ Ends E Q x t) :
    (Routine.store c).Ensures S I C E s Q :=
  h

theorem ensures_records {c : RecordCall} {Q : c.Answer → σ → Prop}
    (h : ∀ x t, S s ⟨.records c, x⟩ t → I t ∧ Ends E Q x t) :
    (Routine.records c).Ensures S I C E s Q :=
  h

theorem ensures_guarded {key : String} {ttl : Interval} {body : Routine Outcome}
    {Q : Outcome → σ → Prop}
    (h : (Lock.acquire key ttl).Ensures S I C E s fun l t =>
      match l with
      | none => Q .locked t
      | some l => body.run.Ensures S I C t fun r u =>
          (Lock.release l).Ensures S I C u fun _ v => Ends E Q r v) :
    (Lock.guarded key ttl body).Ensures S I C E s Q := by
  refine ensures_bind (h.mono fun l t ht => ?_)
  cases l with
  | none => exact ensures_pure ht
  | some l =>
    refine ensures_bind (ensures_lift (Program.Ensures.mono ht fun r u hu => ?_))
    refine ensures_bind (ensures_lift (hu.mono fun _ v hv => ?_))
    cases r with
    | ok o => exact hv
    | error e => exact hv

end Routine

namespace Surroundings.Shows

variable {σ : Type} {S : Surroundings σ} {ints : σ → String → Option UInt64}
variable {I : σ → Prop} {C : Contract σ} {E : Error → σ → Prop} {s : σ}

theorem ensures_request (hS : S.Shows ints E) (hI : I s) {r : Request} {Q : r.Reply → σ → Prop}
    (hr : ∀ x, (Event.mk r x).isQuiet = true) (h : ∀ x, Q x s) :
    (Program.request r).Ensures S I C s Q := by
  intro x t ht
  obtain rfl := hS.quiet ht (hr x)
  exact ⟨hI, h x⟩

theorem ensures_chain (hS : S.Shows ints E) (hI : I s) {c : ChainCall} {Q : UInt64 → σ → Prop}
    (h : ∀ v, S s ⟨.chain c, .ok v⟩ s → Q v s) : (Routine.chain c).Ensures S I C E s Q := by
  intro x t ht
  obtain rfl := hS.quiet ht rfl
  cases x with
  | ok v => exact ⟨hI, h v ht⟩
  | error e => exact ⟨hI, hS.failed ht rfl⟩

theorem ensures_measure (hS : S.Shows ints E) (hI : I s) {m : Measurement} {Q : Unit → σ → Prop}
    (h : Q () s) : (Routine.measure m).Ensures S I C E s Q :=
  Routine.ensures_lift (hS.ensures_request hI (fun _ => rfl) fun _ => h)

theorem ensures_store (hS : S.Shows ints E) (hI : I s) {c : StoreCall} {Q : c.Answer → σ → Prop}
    (hc : ∀ x, (Event.mk (.store c) x).isQuiet = true) (h : ∀ v, Q v s) :
    (Routine.store c).Ensures S I C E s Q := by
  intro x t ht
  obtain rfl := hS.quiet ht (hc x)
  cases x with
  | ok v => exact ⟨hI, h v⟩
  | error e => exact ⟨hI, hS.failed ht rfl⟩

theorem ensures_getInt (hS : S.Shows ints E) (hI : I s) {key : String}
    {Q : Option UInt64 → σ → Prop} (h : Q (ints s key) s) :
    (Routine.store (.getInt key)).Ensures S I C E s Q := by
  intro x t ht
  obtain rfl := hS.quiet ht rfl
  cases x with
  | ok v =>
    obtain rfl := hS.read ht
    exact ⟨hI, h⟩
  | error e => exact ⟨hI, hS.failed ht rfl⟩

def Writes (S : Surroundings σ) (I : σ → Prop) (key : String) (value : UInt64) (s : σ)
    (Q : σ → Prop) : Prop :=
  ∀ t, S s ⟨.store (.setInt key value), .ok ()⟩ t → I t ∧ Q t

theorem ensures_setInt (hS : S.Shows ints E) (hI : I s) {key : String} {value : UInt64}
    {Q : Unit → σ → Prop} (h : Writes S I key value s (Q ())) :
    (Routine.store (.setInt key value)).Ensures S I C E s Q := by
  intro x t ht
  cases x with
  | ok v => exact h t ht
  | error e =>
    obtain rfl := hS.quiet ht rfl
    exact ⟨hI, hS.failed ht rfl⟩

/-- What moving a number has to keep and to reach: it is written if it grows. -/
def Moves (S : Surroundings σ) (ints : σ → String → Option UInt64) (I : σ → Prop) (key : String)
    (value : UInt64) (s : σ) (Q : σ → Prop) : Prop :=
  (value ≤ (ints s key).getD 0 → Q s) ∧
    ((ints s key).getD 0 < value → Writes S I key value s Q)

theorem ensures_get? (hS : S.Shows ints E) (hI : I s) {ns : String} {w : Watermark}
    {Q : Option UInt64 → σ → Prop} (h : Q (ints s (w.key ns)) s) :
    (Checkpoint.get? ns w).Ensures S I C E s Q :=
  hS.ensures_getInt hI h

theorem ensures_get (hS : S.Shows ints E) (hI : I s) {ns : String} {w : Watermark}
    {Q : UInt64 → σ → Prop} (h : Q ((ints s (w.key ns)).getD 0) s) :
    (Checkpoint.get ns w).Ensures S I C E s Q :=
  Routine.ensures_bind (hS.ensures_get? hI (Routine.ensures_pure h))

theorem ensures_advance (hS : S.Shows ints E) (hI : I s) {ns : String} {w : Watermark}
    {value : UInt64} {Q : σ → Prop} (h : Moves S ints I (w.key ns) value s Q) :
    (Checkpoint.advance ns w value).Ensures S I C E s fun _ t => Q t := by
  refine Routine.ensures_bind (hS.ensures_get hI ?_)
  by_cases hlt : value < (ints s (w.key ns)).getD 0
  · simp only [if_pos hlt]
    exact Routine.ensures_pure (h.1 (UInt64.le_of_lt hlt))
  · by_cases heq : value = (ints s (w.key ns)).getD 0
    · simp only [if_neg hlt, if_pos heq]
      exact Routine.ensures_pure (h.1 (UInt64.le_of_eq heq))
    · simp only [if_neg hlt, if_neg heq]
      have hgt : (ints s (w.key ns)).getD 0 < value := by
        rw [UInt64.lt_iff_toNat_lt] at hlt ⊢
        rw [← UInt64.toNat_inj] at heq
        omega
      exact Routine.ensures_bind
        (hS.ensures_setInt hI fun t ht => ⟨(h.2 hgt t ht).1, Routine.ensures_pure (h.2 hgt t ht).2⟩)

theorem ensures_seed (hS : S.Shows ints E) (hI : I s) {ns : String} {w : Watermark}
    {value : UInt64} {Q : σ → Prop} (hset : (ints s (w.key ns)).isSome = true → Q s)
    (hnew : ints s (w.key ns) = none → Writes S I (w.key ns) value s Q) :
    (Checkpoint.seed ns w value).Ensures S I C E s fun _ t => Q t := by
  refine Routine.ensures_bind (hS.ensures_get? hI ?_)
  by_cases h : (ints s (w.key ns)).isSome = true
  · simp only [if_pos h]
    exact Routine.ensures_pure (hset h)
  · simp only [if_neg h]
    have hn := hnew (by simpa using h)
    exact Routine.ensures_bind
      (hS.ensures_setInt hI fun t ht => ⟨(hn t ht).1, Routine.ensures_pure (hn t ht).2⟩)

theorem ensures_guarded (hS : S.Shows ints E) (hI : I s) {key : String} {ttl : Interval}
    {body : Routine Outcome} {Q : Outcome → σ → Prop} (locked : Q .locked s)
    (h : body.Ensures S I C E s Q) : (Lock.guarded key ttl body).Ensures S I C E s Q := by
  refine Routine.ensures_guarded (Routine.ensures_bind (Routine.ensures_lift ?_))
  refine hS.ensures_request hI (fun _ => rfl) fun token => Routine.ensures_bind ?_
  refine hS.ensures_store hI (fun x => by cases x <;> rfl) fun taken => ?_
  cases taken with
  | false => exact Routine.ensures_pure locked
  | true =>
    refine Routine.ensures_bind (Routine.ensures_lift (hS.ensures_request hI (fun _ => rfl) ?_))
    refine fun _ => Routine.ensures_pure ((Program.Ensures.keeping h hI).mono fun r t hr => ?_)
    refine Program.ensures_bind (hS.ensures_request hr.1 (fun _ => rfl) fun _ => ?_)
    exact Program.ensures_bind (hS.ensures_request hr.1 (fun x => by cases x <;> rfl) fun _ => hr.2)

end Surroundings.Shows
end BridgeNotifier
