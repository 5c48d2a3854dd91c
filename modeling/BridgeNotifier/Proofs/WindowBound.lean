import BridgeNotifier.Proofs.Samples
set_option autoImplicit false

namespace BridgeNotifier
open Surroundings

namespace Event

def pushes (key : String) : Event → Bool
  | ⟨.store (.push k _), .ok _⟩ => k = key
  | _ => false

def drops (key : String) : Event → Bool
  | ⟨.store (.popOldest k), .ok _⟩ => k = key
  | _ => false

end Event

namespace Surroundings

variable {m n : Memory} {key : String}

theorem length_of_shared {e : Event} (h : shared m e n) :
    (n.lists key).length + (if e.drops key then 1 else 0) =
      (m.lists key).length + (if e.pushes key then 1 else 0) := by
  obtain ⟨r, x⟩ := e
  cases r with
  | store c =>
    obtain ⟨leases, now, hx⟩ | ⟨err, rfl, rfl⟩ := h
    · cases c with
      | push k timestamp =>
        cases hx
        by_cases own : k = key
        · subst own
          simp [Event.pushes, Event.drops]
        · simp [Event.pushes, Event.drops, own, Function.update_of_ne (Ne.symm own) _ _]
      | popOldest k =>
        simp only [Memory.call] at hx
        split at hx
        · rename_i oldest last
          cases hx
          by_cases own : k = key
          · subst own
            have filled : 0 < (m.lists k).length :=
              List.length_pos_iff.2 fun none => by simp [none] at last
            simp [Event.pushes, Event.drops]
            omega
          · simp [Event.pushes, Event.drops, own, Function.update_of_ne (Ne.symm own) _ _]
        · cases hx
          rfl
      | tryLock k token ttl =>
        simp only [Memory.call] at hx
        split at hx <;> · cases hx; rfl
      | extendLock k token ttl | releaseLock k token =>
        simp only [Memory.call] at hx
        split at hx
        · split at hx <;> · cases hx; rfl
        · cases hx
          rfl
      | getInt k | setInt k value | length k =>
        cases hx
        rfl
    · cases c <;> rfl
  | _ =>
    obtain rfl : n = m := h
    rfl

theorem length_of_leads {α : Type} {p q : Program α} {es : List Event}
    (run : p.Leads shared m es q n) :
    (n.lists key).length + es.countP (Event.drops key) =
      (m.lists key).length + es.countP (Event.pushes key) := by
  induction run with
  | refl p m => rfl
  | @ask r k x m t n es q h rest ih =>
    have one : (t.lists key).length + _ = (m.lists key).length + _ := length_of_shared h
    simp only [List.countP_cons]
    omega
  | call rest ih => exact ih

end Surroundings

namespace Routine

variable {σ β : Type} {S : Surroundings σ} {s t : σ} {es : List Event}

theorem leads_store {c : StoreCall} {f : c.Answer → Routine β} {q : Program (Except Error β)}
    (run : (Routine.store c >>= f).run.Leads S s es q t) :
    (es = [] ∧ q.result? = none) ∨ ∃ x u rest, es = ⟨.store c, x⟩ :: rest ∧ S s ⟨.store c, x⟩ u ∧
      Program.Leads S (match x with
        | .ok a => (f a).run
        | .error err => .done (.error err)) u rest q t := by
  generalize hp : (Routine.store c >>= f).run = p at run
  cases run with
  | refl =>
    subst hp
    exact .inl ⟨rfl, rfl⟩
  | @ask r k x _ u _ rest _ h left =>
    cases hp
    refine .inr ⟨x, u, rest, rfl, h, ?_⟩
    cases x <;> exact left
  | call => cases hp

theorem leads_done {q : Program (Except Error β)} {x : Except Error β}
    (run : (Program.done x).Leads S s es q t) : es = [] ∧ q = .done x := by
  cases run
  exact ⟨rfl, rfl⟩

end Routine

namespace Estimator

variable {e : Estimator} {secs : UInt64} {m n : Memory} {es : List Event}
variable {q : Program (Except Error SampleOutcome)}

theorem judged_leads {average : Option UInt64}
    (run : (e.judged average).run.Leads shared m es q n) :
    es.countP (Event.pushes e.windowKey) = 0 ∧ es.countP (Event.drops e.windowKey) = 0 := by
  cases average with
  | none =>
    obtain ⟨rfl, -⟩ := Routine.leads_done run
    exact ⟨rfl, rfl⟩
  | some average =>
    rw [judged_eq] at run
    split at run
    · obtain ⟨rfl, -⟩ | ⟨x, u, rest, rfl, -, left⟩ := Routine.leads_store run
      · exact ⟨rfl, rfl⟩
      · cases x with
        | error err =>
          obtain ⟨rfl, -⟩ := Routine.leads_done left
          exact ⟨rfl, rfl⟩
        | ok done =>
          obtain ⟨rfl, -⟩ := Routine.leads_done (x := .ok (SampleOutcome.accepted average)) left
          exact ⟨rfl, rfl⟩
    · obtain ⟨rfl, -⟩ := Routine.leads_done run
      exact ⟨rfl, rfl⟩

theorem overflowed_leads {length : UInt64}
    (run : (e.overflowed secs length).run.Leads shared m es q n) :
    es.countP (Event.pushes e.windowKey) = 0 ∧ es.countP (Event.drops e.windowKey) ≤ 1 ∧
      ∀ x, q = .done (.ok x) → es.countP (Event.drops e.windowKey) = 1 := by
  obtain ⟨rfl, stuck⟩ | ⟨x, u, rest, rfl, -, left⟩ := Routine.leads_store run
  · refine ⟨rfl, Nat.zero_le 1, ?_⟩
    rintro x rfl
    cases stuck
  · cases x with
    | error err =>
      obtain ⟨rfl, rfl⟩ := Routine.leads_done left
      exact ⟨rfl, Nat.zero_le 1, fun x h => by cases h⟩
    | ok oldest =>
      obtain ⟨pushes, drops⟩ := judged_leads left
      simp [pushes, drops, Event.pushes, Event.drops]

/-- A call puts in one sample at most and drops no more than it put in. A call that succeeds has put
one in, and it has dropped one unless there was room. -/
theorem recordSample_leads (few : (m.lists e.windowKey).length + 1 < UInt64.size)
    (run : (e.recordSample secs).run.Leads shared m es q n) :
    es.countP (Event.drops e.windowKey) ≤ es.countP (Event.pushes e.windowKey) ∧
      es.countP (Event.pushes e.windowKey) ≤ 1 ∧
      ∀ x, q = .done (.ok x) → es.countP (Event.pushes e.windowKey) = 1 ∧
        (es.countP (Event.drops e.windowKey) = 0 →
          (m.lists e.windowKey).length + 1 ≤ e.window.capacity.toNat) := by
  rw [recordSample_eq] at run
  obtain ⟨rfl, stuck⟩ | ⟨x, u, rest, rfl, answer, left⟩ := Routine.leads_store run
  · refine ⟨Nat.le_refl 0, Nat.zero_le 1, ?_⟩
    rintro x rfl
    cases stuck
  · cases x with
    | error err =>
      obtain ⟨rfl, rfl⟩ := Routine.leads_done left
      exact ⟨Nat.le_refl 0, Nat.zero_le 1, fun x h => by cases h⟩
    | ok length =>
      have count : length.toNat = (m.lists e.windowKey).length + 1 := by
        obtain ⟨leases, now, hx⟩ | ⟨err, ⟨⟩, -⟩ := answer
        cases hx
        exact UInt64.toNat_ofNat_of_lt' few
      have pushed : (Event.mk (.store (.push e.windowKey secs)) (.ok length)).pushes e.windowKey :=
        decide_eq_true rfl
      have kept : ¬ (Event.mk (.store (.push e.windowKey secs)) (.ok length)).drops e.windowKey :=
        Bool.false_ne_true
      rw [List.countP_cons_of_pos pushed, List.countP_cons_of_neg kept]
      dsimp only at left
      split at left
      · rename_i room
        obtain ⟨rfl, rfl⟩ := Routine.leads_done left
        rw [UInt64.le_iff_toNat_le, count] at room
        exact ⟨Nat.zero_le 1, Nat.le_refl 1, fun x _ => ⟨rfl, fun _ => room⟩⟩
      · obtain ⟨pushes, drops, ended⟩ := overflowed_leads left
        rw [pushes]
        exact ⟨drops, Nat.le_refl 1, fun x hx => ⟨rfl, fun none => by have := ended x hx; omega⟩⟩

theorem recordSample_ne_overflow {σ : Type} {S : Surroundings σ} {s t : σ} {millis : UInt64}
    {o : SampleOutcome}
    (run : (e.recordSample (millis / 1000)).run.Leads S s es (.done (.ok o)) t) : o ≠ .overflow := by
  rw [recordSample_eq] at run
  obtain ⟨-, ⟨⟩⟩ | ⟨x, u, rest, rfl, -, left⟩ := Routine.leads_store run
  cases x with
  | error err => cases (Routine.leads_done left).2
  | ok length =>
    dsimp only at left
    split at left
    · cases (Routine.leads_done left).2
      exact nofun
    · obtain ⟨-, ⟨⟩⟩ | ⟨y, v, rest, rfl, -, left⟩ := Routine.leads_store left
      cases y with
      | error err => cases (Routine.leads_done left).2
      | ok oldest =>
        obtain ⟨average, computed⟩ := Option.ne_none_iff_exists'.1
          (averageInterval_ne_none millis oldest (length - 1))
        simp only [computed, judged_eq] at left
        split at left
        · obtain ⟨-, ⟨⟩⟩ | ⟨z, v, rest, rfl, -, left⟩ := Routine.leads_store left
          cases z with
          | error err => cases (Routine.leads_done left).2
          | ok done =>
            cases (Routine.leads_done (x := .ok (SampleOutcome.accepted average)) left).2
            exact nofun
        · cases (Routine.leads_done left).2
          exact nofun

end Estimator

def Memory.samples (m : Memory) (ns : String) (r : Role) : Nat :=
  (m.lists (storeKey ns r.windowName)).length

/-- A call that takes a sample as far as it came: its window, its events, and its outcome if it came
to its end. -/
structure Take where
  window : WindowConfig
  events : List Event
  result : Option (Except Error SampleOutcome)

namespace Take

variable (key : String) (t : Take)

def succeeded : Bool :=
  match t.result with
  | some (.ok _) => true
  | _ => false

/-- The call put a sample in, and was cut off before it dropped the one that was then too many. -/
def isShort : Bool :=
  t.events.any (Event.pushes key) && !t.events.any (Event.drops key) && !t.succeeded

def widest (ts : List Take) : Nat :=
  ts.foldr (fun t most => max t.window.capacity.toNat most) 0

theorem widest_le {ts : List Take} {most : Nat}
    (h : ∀ t ∈ ts, t.window.capacity.toNat ≤ most) : widest ts ≤ most := by
  induction ts with
  | nil => exact Nat.zero_le most
  | cons t ts ih =>
    obtain ⟨head, tail⟩ := List.forall_mem_cons.1 h
    exact Nat.max_le.2 ⟨head, ih tail⟩

end Take

/-- Calls that take samples for a role one after another, the latest first, and the store after
them. Between two calls others may work on the store, but not on the samples of the role. -/
inductive Takes (ns : String) (r : Role) (first : Memory) : List Take → Memory → Prop where
  | start : Takes ns r first [] first
  | others {ts : List Take} {m n : Memory} (before : Takes ns r first ts m)
      (untouched : n.lists (storeKey ns r.windowName) = m.lists (storeKey ns r.windowName)) :
      Takes ns r first ts n
  | take {ts : List Take} {m n : Memory} (before : Takes ns r first ts m) (w : WindowConfig)
      (secs : UInt64) {es : List Event} {p : Program (Except Error SampleOutcome)}
      (run : ((Estimator.mk r ns w).recordSample secs).run.Leads shared m es p n) :
      Takes ns r first (⟨w, es, p.result?⟩ :: ts) n

namespace Takes

variable {ns : String} {r : Role} {first m n : Memory} {ts : List Take} {w : WindowConfig}
variable {secs : UInt64} {es : List Event} {p : Program (Except Error SampleOutcome)}

structure Adds (ns : String) (r : Role) (t : Take) (m n : Memory) : Prop where
  grows : m.samples ns r ≤ n.samples ns r
  one : n.samples ns r ≤ m.samples ns r + 1
  room : t.succeeded = true → m.samples ns r < n.samples ns r →
    n.samples ns r ≤ t.window.capacity.toNat
  bound : n.samples ns r ≤ max t.window.capacity.toNat (m.samples ns r) +
    if t.isShort (storeKey ns r.windowName) then 1 else 0

theorem eq_ok_of_succeeded (h : Take.succeeded ⟨w, es, p.result?⟩ = true) :
    ∃ x, p = .done (.ok x) := by
  unfold Take.succeeded at h
  split at h
  · exact ⟨_, Program.eq_done_of_result? ‹_›⟩
  · cases h

theorem adds (few : m.samples ns r + 1 < UInt64.size)
    (run : ((Estimator.mk r ns w).recordSample secs).run.Leads shared m es p n) :
    Adds ns r ⟨w, es, p.result?⟩ m n := by
  have key : (Estimator.mk r ns w).windowKey = storeKey ns r.windowName := rfl
  obtain ⟨fewer, one, ended⟩ := Estimator.recordSample_leads (e := ⟨r, ns, w⟩) few run
  have balance : n.samples ns r + _ = m.samples ns r + _ := length_of_leads run
  rw [key] at fewer one ended
  have room : Take.succeeded ⟨w, es, p.result?⟩ = true → m.samples ns r < n.samples ns r →
      n.samples ns r ≤ w.capacity.toNat := by
    intro ok longer
    obtain ⟨x, hx⟩ := eq_ok_of_succeeded ok
    obtain ⟨-, unlessDropped⟩ := ended x hx
    have fits : m.samples ns r + 1 ≤ w.capacity.toNat := unlessDropped (by omega)
    omega
  refine ⟨by omega, by omega, room, ?_⟩
  have most := Nat.le_max_right w.capacity.toNat (m.samples ns r)
  by_cases longer : m.samples ns r < n.samples ns r
  · cases ok : Take.succeeded ⟨w, es, p.result?⟩ with
    | true =>
      exact Nat.le_add_right_of_le (Nat.le_trans (room ok longer) (Nat.le_max_left ..))
    | false =>
      have put : es.any (Event.pushes (storeKey ns r.windowName)) = true :=
        List.any_eq_true.2 (List.countP_pos_iff.1 (by omega))
      have kept : es.any (Event.drops (storeKey ns r.windowName)) = false :=
        List.any_eq_false.2 (List.countP_eq_zero.1 (by omega))
      have short : Take.isShort (storeKey ns r.windowName) ⟨w, es, p.result?⟩ = true := by
        simp only [Take.isShort, put, kept, ok, Bool.not_false, Bool.and_self]
      rw [if_pos short]
      omega
  · omega

/-- A window has no more samples than calls were made, and no more than there was ever room for and
were left over by calls that were cut off. -/
theorem samples_le (takes : Takes ns r first ts m) (empty : first.samples ns r = 0)
    (few : ts.length < UInt64.size) : m.samples ns r ≤ ts.length ∧
      m.samples ns r ≤ Take.widest ts + ts.countP (Take.isShort (storeKey ns r.windowName)) := by
  induction takes with
  | start =>
    rw [empty]
    exact ⟨Nat.zero_le _, Nat.zero_le _⟩
  | @others ts m n before untouched ih =>
    have same : n.samples ns r = m.samples ns r := congrArg List.length untouched
    rw [same]
    exact ih few
  | @take ts m n before w secs es p run ih =>
    rw [List.length_cons] at few
    obtain ⟨length, bound⟩ := ih (by omega)
    obtain ⟨-, one, -, added⟩ := adds (by omega) run
    rw [List.length_cons, List.countP_cons, Take.widest, List.foldr_cons, ← Take.widest]
    dsimp only at added ⊢
    omega

/-- After a call that succeeds the window is within the capacity of that call if and only if it was
before the call. It is, if no call before had a larger window or was cut off; and beyond the largest
capacity so far a window holds no more samples than calls were cut off. -/
theorem within_iff (takes : Takes ns r first ts m) (empty : first.samples ns r = 0)
    (few : ts.length + 1 < UInt64.size) {x : SampleOutcome}
    (run : ((Estimator.mk r ns w).recordSample secs).run.Leads shared m es (.done (.ok x)) n) :
    (n.samples ns r ≤ w.capacity.toNat ↔ m.samples ns r ≤ w.capacity.toNat) ∧
    m.samples ns r ≤ n.samples ns r ∧
    n.samples ns r ≤ max w.capacity.toNat (Take.widest ts) +
      ts.countP (Take.isShort (storeKey ns r.windowName)) ∧
    ((∀ t ∈ ts, t.window.capacity ≤ w.capacity ∧
        t.isShort (storeKey ns r.windowName) = false) → n.samples ns r ≤ w.capacity.toNat) := by
  obtain ⟨length, bound⟩ := takes.samples_le empty (by omega)
  obtain ⟨grows, -, room, -⟩ := adds (by omega) run
  have fits : m.samples ns r < n.samples ns r → n.samples ns r ≤ w.capacity.toNat := room rfl
  refine ⟨by omega, grows, by omega, fun all => ?_⟩
  have widest : Take.widest ts ≤ w.capacity.toNat :=
    Take.widest_le fun t ht => UInt64.le_iff_toNat_le.1 (all t ht).1
  have whole : ts.countP (Take.isShort (storeKey ns r.windowName)) = 0 :=
    List.countP_eq_zero.2 fun t ht => by simp [(all t ht).2]
  omega

theorem shared_ok {m n : Memory} {c : StoreCall} {x : c.Answer}
    (h : Memory.call 0 m c = (.ok x, n)) : shared m ⟨.store c, .ok x⟩ n :=
  .inl ⟨m.leases, 0, h.symm⟩

def twoSamples : Memory :=
  (Memory.empty.writeList "bridge_commit_time_list" [0]).writeList "bridge_commit_time_list" [60, 0]

def roomFor (capacity : UInt64) : WindowConfig :=
  ⟨capacity, 30, 600, 600⟩

def refused : Error :=
  ⟨.keyValue, "refused"⟩

def cutOff : List Take :=
  [⟨roomFor 1, [⟨.store (.push "bridge_commit_time_list" 60), .ok 2⟩,
      ⟨.store (.popOldest "bridge_commit_time_list"), .error refused⟩], some (.error refused)⟩,
    ⟨roomFor 1, [⟨.store (.push "bridge_commit_time_list" 0), .ok 1⟩], some (.ok (.filling 1))⟩]

def bothKept : List Take :=
  [⟨roomFor 2, [⟨.store (.push "bridge_commit_time_list" 60), .ok 2⟩], some (.ok (.filling 2))⟩,
    ⟨roomFor 2, [⟨.store (.push "bridge_commit_time_list" 0), .ok 1⟩], some (.ok (.filling 1))⟩]

theorem takes_cutOff : Takes "" .commit .empty cutOff twoSamples :=
  (Takes.start.take (roomFor 1) 0 (p := .done (.ok (.filling 1)))
    (.ask (shared_ok rfl) (.refl _ _))).take (roomFor 1) 60 (p := .done (.error refused))
      (.ask (shared_ok rfl) (.ask (.inr ⟨refused, rfl, rfl⟩) (.refl _ _)))

theorem takes_bothKept : Takes "" .commit .empty bothKept twoSamples :=
  (Takes.start.take (roomFor 2) 0 (p := .done (.ok (.filling 1)))
    (.ask (shared_ok rfl) (.refl _ _))).take (roomFor 2) 60 (p := .done (.ok (.filling 2)))
      (.ask (shared_ok rfl) (.refl _ _))

/-- One call more, with room for one sample: it succeeds and leaves two. -/
theorem leads_tooLong : ∃ es n, ((Estimator.mk .commit "" (roomFor 1)).recordSample 120).run.Leads
    shared twoSamples es (.done (.ok (.accepted 60))) n ∧ n.samples "" .commit = 2 :=
  ⟨_, _, .ask (shared_ok rfl) (.ask (shared_ok rfl) (.ask (shared_ok rfl) (.refl _ _))), rfl⟩

theorem within_iff_cutOff : ∃ es n, Takes "" .commit .empty cutOff twoSamples ∧
    Memory.empty.samples "" .commit = 0 ∧ cutOff.length + 1 < UInt64.size ∧
    ((Estimator.mk .commit "" (roomFor 1)).recordSample 120).run.Leads shared twoSamples es
      (.done (.ok (.accepted 60))) n ∧
    (n.samples "" .commit ≤ 1 ↔ twoSamples.samples "" .commit ≤ 1) ∧
    n.samples "" .commit ≤ 1 + 1 := by
  obtain ⟨es, n, run, -⟩ := leads_tooLong
  obtain ⟨within, -, bound, -⟩ := within_iff takes_cutOff rfl (by decide) run
  exact ⟨es, n, takes_cutOff, rfl, by decide, run, within, bound⟩

/-- A window can be too long after a call that succeeds, with one capacity all the time once a call
was cut off, and without any failure once the capacity is smaller than before. -/
theorem not_within :
    (¬ ∀ ts m w secs es x n, Takes "" .commit .empty ts m → 1 ≤ w.capacity →
      (∀ t ∈ ts, t.window = w) →
      ((Estimator.mk .commit "" w).recordSample secs).run.Leads shared m es (.done (.ok x)) n →
      n.samples "" .commit ≤ w.capacity.toNat) ∧
    ¬ ∀ ts m w secs es x n, Takes "" .commit .empty ts m → 1 ≤ w.capacity →
      (∀ t ∈ ts, t.succeeded = true ∧ 1 ≤ t.window.capacity) →
      ((Estimator.mk .commit "" w).recordSample secs).run.Leads shared m es (.done (.ok x)) n →
      n.samples "" .commit ≤ w.capacity.toNat := by
  obtain ⟨es, n, run, two⟩ := leads_tooLong
  have tooLong : ¬ n.samples "" .commit ≤ (roomFor 1).capacity.toNat := by
    rw [two]
    decide
  refine ⟨fun all => tooLong ?_, fun all => tooLong ?_⟩
  · exact all cutOff twoSamples _ 120 es _ n takes_cutOff (by decide) (by decide) run
  · exact all bothKept twoSamples _ 120 es _ n takes_bothKept (by decide) (by decide) run

end Takes
end BridgeNotifier
