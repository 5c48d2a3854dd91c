import BridgeNotifier.Proofs.Conduct
import BridgeNotifier.Proofs.Replay
import Mathlib.Logic.Function.Basic
set_option autoImplicit false

/-!
# Replicas

Ticks of any number of replicas on one shared store, with the work that they start in the
background. One request of one of them is answered at a time, at instants that never go back. A
call of the store is answered as the store stands at that instant, or fails and changes nothing;
everything else may be answered in any way, and as late as it may be.
-/
namespace BridgeNotifier

namespace Surroundings

def anyhow : Surroundings Unit :=
  fun _ _ _ => True

def timed (now : Nat) : Surroundings Memory := fun m e n =>
  match e with
  | ⟨.store c, x⟩ => (x, n) = Memory.call now m c ∨ ∃ err, x = .error err ∧ n = m
  | _ => n = m

theorem timed_eq {now : Nat} {m n : Memory} {e : Event} (h : timed now m e n)
    (he : ∀ c, e.request ≠ .store c) : n = m := by
  obtain ⟨r, x⟩ := e
  cases r with
  | store c => exact absurd rfl (he c)
  | _ => exact h

theorem timed_of_leads {α : Type} {now : Nat} {m : Memory} {p q : Program α} {w v : Unit}
    {es : List Event} (run : p.Leads anyhow w es q v)
    (hes : ∀ e ∈ es, ∀ c, e.request ≠ .store c) : p.Leads (timed now) m es q m := by
  induction run with
  | refl p w => exact .refl p m
  | @ask r k x _ _ _ es q _ _ ih =>
    have same : timed now m ⟨r, x⟩ m := by
      cases r with
      | store c => exact absurd rfl (hes ⟨.store c, x⟩ (by simp) c)
      | _ => exact rfl
    exact .ask same (ih fun e he => hes e (by simp [he]))
  | call _ ih => exact .call (ih hes)

section Locks
variable {now : Nat} {m n : Memory} {key token : String} {ttl : Interval}

theorem timed_taken (h : timed now m ⟨.store (.tryLock key token ttl), .ok true⟩ n) :
    m.held? now key = none ∧
      n = { m with leases := Function.update m.leases key (some (Memory.lease now token ttl)) } := by
  obtain h | ⟨err, h, -⟩ := h
  · cases hk : m.held? now key with
    | some held => cases h.trans (Memory.call_tryLock_held hk)
    | none => exact ⟨rfl, congrArg Prod.snd (h.trans (Memory.call_tryLock_free hk))⟩
  · cases h

theorem timed_refused {x : Except Error Bool} (hx : x ≠ .ok true)
    (h : timed now m ⟨.store (.tryLock key token ttl), x⟩ n) : n = m := by
  obtain h | ⟨err, -, h⟩ := h
  · cases hk : m.held? now key with
    | some held => exact congrArg Prod.snd (h.trans (Memory.call_tryLock_held hk))
    | none => exact absurd (congrArg Prod.fst (h.trans (Memory.call_tryLock_free hk))) hx
  · exact h

end Locks

section Values
variable {now : Nat} {m n : Memory} {e : Event}

/-- All that an event can do to leases: a free key is taken, or whoever holds a key renews its lease
or gives it up. -/
theorem timed_leases (h : timed now m e n) : n.leases = m.leases ∨ ∃ key token,
    (∃ ttl, e = ⟨.store (.tryLock key token ttl), .ok true⟩ ∧ m.held? now key = none ∧
        n.leases = Function.update m.leases key (some (Memory.lease now token ttl))) ∨
      (m.held? now key).map Held.token = some token ∧
        ((∃ ttl, e = ⟨.store (.extendLock key token ttl), .ok true⟩ ∧
            n.leases = Function.update m.leases key (some (Memory.lease now token ttl))) ∨
          e = ⟨.store (.releaseLock key token), .ok true⟩ ∧
            n.leases = Function.update m.leases key none) := by
  obtain ⟨r, x⟩ := e
  cases r with
  | store c =>
    obtain h | ⟨err, -, rfl⟩ := h
    · cases c with
      | tryLock key token ttl =>
        cases hk : m.held? now key with
        | none =>
          rw [Memory.call_tryLock_free hk] at h
          cases h
          exact .inr ⟨key, token, .inl ⟨ttl, rfl, hk, rfl⟩⟩
        | some lease =>
          rw [Memory.call_tryLock_held hk] at h
          cases h
          exact .inl rfl
      | extendLock key token ttl =>
        by_cases own : (m.held? now key).map Held.token = some token
        · rw [Memory.call_extendLock_own own] at h
          cases h
          exact .inr ⟨key, token, .inr ⟨own, .inl ⟨ttl, rfl, rfl⟩⟩⟩
        · rw [Memory.call_extendLock_other own] at h
          cases h
          exact .inl rfl
      | releaseLock key token =>
        by_cases own : (m.held? now key).map Held.token = some token
        · rw [Memory.call_releaseLock_own own] at h
          cases h
          exact .inr ⟨key, token, .inr ⟨own, .inr ⟨rfl, rfl⟩⟩⟩
        · rw [Memory.call_releaseLock_other own] at h
          cases h
          exact .inl rfl
      | getInt k | setInt k v | push k v | length k =>
        cases h
        exact .inl rfl
      | popOldest k =>
        simp only [Memory.call] at h
        split at h <;>
        · cases h
          exact .inl rfl
    · exact .inl rfl
  | _ => exact .inl (congrArg Memory.leases h)

theorem timed_lease_token (h : timed now m e n)
    (untried : ∀ key held ttl, e.request ≠ .store (.tryLock key held ttl)) {key token : String}
    (hn : (n.leases key).map Held.token = some token) :
    (m.leases key).map Held.token = some token := by
  obtain same | ⟨k, held, ⟨ttl, rfl, -, -⟩ | ⟨lease, ⟨ttl, -, hn'⟩ | ⟨-, hn'⟩⟩⟩ := timed_leases h
  · rwa [same] at hn
  · exact absurd rfl (untried k held ttl)
  · by_cases hkey : key = k
    · subst hkey
      rw [hn', Function.update_self, Option.map_some] at hn
      obtain ⟨l, hl, rfl⟩ := Option.map_eq_some_iff.1 lease
      rw [(Option.filter_eq_some_iff.1 hl).1, Option.map_some]
      exact hn
    · rwa [hn', Function.update_of_ne hkey _ _] at hn
  · by_cases hkey : key = k
    · subst hkey
      rw [hn', Function.update_self] at hn
      cases hn
    · rwa [hn', Function.update_of_ne hkey _ _] at hn

theorem shared_of_timed (h : timed now m e n) : shared m e n := by
  obtain ⟨r, x⟩ := e
  cases r with
  | store c =>
    obtain h | h := h
    · exact .inl ⟨m.leases, now, h⟩
    · exact .inr h
  | _ => exact h

theorem timed_found {key : String} {v : Option UInt64}
    (h : timed now m ⟨.store (.getInt key), .ok v⟩ n) : n = m ∧ m.ints key = v := by
  obtain h | ⟨err, h, -⟩ := h
  · cases h
    exact ⟨rfl, rfl⟩
  · cases h

theorem timed_ints (h : timed now m e n) (key : String) : n.ints key = m.ints key ∨
    ∃ value, e = ⟨.store (.setInt key value), .ok ()⟩ ∧ n.ints key = some value := by
  have h := numbers_of_shared (shared_of_timed h)
  cases hq : e.isQuiet with
  | true => exact .inl (congrFun (eq_of_numbers h hq) key)
  | false =>
    obtain ⟨r, x⟩ := e
    cases r with
    | store c =>
      cases c with
      | setInt k value =>
        cases x with
        | ok u =>
          have written : n.ints = Function.update m.ints k (some value) := h
          by_cases hk : key = k
          · subst hk
            exact .inr ⟨value, rfl, by rw [written, Function.update_self]⟩
          · exact .inl (by rw [written, Function.update_of_ne hk _ _])
        | error err => cases hq
      | _ => cases hq
    | _ => exact .inl (congrFun h key)

end Values
end Surroundings

structure Thread (α : Type) where
  events : List Event
  program : Program α

/-- Who moves: a tick, or a program that was started in the background. -/
inductive Actor (n : Nat) where
  | tick (i : Fin n)
  | job (j : Nat)
  deriving DecidableEq, Repr

structure Move (n : Nat) where
  now : Nat
  actor : Actor n
  event : Event

structure Replicas (n : Nat) where
  now : Nat
  memory : Memory
  ticks : Fin n → Thread (Except Error Outcome)
  jobs : List (Thread Unit)

namespace Replicas
open Surroundings

variable {n : Nat}

inductive Step (P : Replicas n) : Move n → Replicas n → Prop where
  | tick {now : Nat} {i : Fin n} {e : Event} {q : Program (Except Error Outcome)} {m : Memory}
      (later : P.now ≤ now) (run : (P.ticks i).program.Leads (timed now) P.memory [e] q m) :
      Step P ⟨now, .tick i, e⟩ ⟨now, m, Function.update P.ticks i ⟨(P.ticks i).events ++ [e], q⟩,
        P.jobs ++ e.starts.map (Thread.mk [])⟩
  | job {now j : Nat} {t : Thread Unit} {e : Event} {q : Program Unit} {m : Memory}
      (later : P.now ≤ now) (started : P.jobs[j]? = some t)
      (run : t.program.Leads (timed now) P.memory [e] q m) :
      Step P ⟨now, .job j, e⟩ ⟨now, m, P.ticks, P.jobs.set j ⟨t.events ++ [e], q⟩⟩

/-- Moves one after another, each of which is allowed where it is made. -/
inductive Reaches (first : Replicas n) (allowed : Replicas n → Move n → Prop) :
    List (Move n) → Replicas n → Prop where
  | start : Reaches first allowed [] first
  | step {ms : List (Move n)} {mv : Move n} {P Q : Replicas n} (before : Reaches first allowed ms P)
      (ok : allowed P mv) (step : P.Step mv Q) : Reaches first allowed (ms ++ [mv]) Q

variable {P Q : Replicas n} {mv : Move n}

theorem Step.now_le (h : P.Step mv Q) : P.now ≤ mv.now := by
  cases h with
  | tick later _ => exact later
  | job later _ _ => exact later

theorem Step.timed (h : P.Step mv Q) : timed mv.now P.memory mv.event Q.memory := by
  cases h with
  | tick _ run => exact run.single
  | job _ _ run => exact run.single

theorem Step.ticks_of_ne (h : P.Step mv Q) {i : Fin n} (hi : mv.actor ≠ .tick i) :
    Q.ticks i = P.ticks i := by
  cases h with
  | @tick _ k _ _ _ _ _ =>
    have hk : i ≠ k := fun h => hi (congrArg Actor.tick h.symm)
    exact Function.update_of_ne hk _ _
  | job _ _ _ => rfl

theorem Step.events (h : P.Step mv Q) {i : Fin n} (hi : mv.actor = .tick i) :
    (Q.ticks i).events = (P.ticks i).events ++ [mv.event] := by
  cases h with
  | tick _ _ =>
    cases hi
    simp
  | job _ _ _ => cases hi

theorem Step.result?_eq_none (h : P.Step mv Q) {i : Fin n} (hi : mv.actor = .tick i) :
    (P.ticks i).program.result? = none := by
  cases h with
  | tick _ run =>
    cases hi
    exact Program.result?_of_leads_cons run
  | job _ _ _ => cases hi

theorem Reaches.mono {first : Replicas n} {allowed allowed' : Replicas n → Move n → Prop}
    {ms : List (Move n)} (h : Reaches first allowed ms P) (hle : ∀ P mv, allowed P mv → allowed' P mv) :
    Reaches first allowed' ms P := by
  induction h with
  | start => exact .start
  | step _ ok step ih => exact .step ih (hle _ _ ok) step

end Replicas

namespace Setup
open Replicas Surroundings

variable (s : Setup) {n : Nat} (task : Fin n → Task)

def together (now : Nat) (m : Memory) : Replicas n :=
  ⟨now, m, fun i => ⟨[], (s.tick (task i)).run⟩, []⟩

def stands (P : Replicas n) (i : Fin n) : Option Standing :=
  s.standing (task i) (P.ticks i).events

/-- The token under which a tick works, while it has its lock. -/
def holder? (P : Replicas n) (i : Fin n) : Option String :=
  (s.stands task P i).bind Standing.holder?

/-- What programs of replicas are left with comes of what they began with. -/
structure Sound (P : Replicas n) : Prop where
  ticks : ∀ i, (s.tick (task i)).run.Leads anyhow () (P.ticks i).events (P.ticks i).program ()
  jobs : ∀ t ∈ P.jobs, ∃ p : Program Unit, p.Meek ∧ p.Leads anyhow () t.events t.program ()

variable {s task} {P Q : Replicas n} {mv : Move n} {now : Nat} {m : Memory}

theorem anyhow_of_leads {α σ : Type} {S : Surroundings σ} {p q : Program α} {w v : σ}
    {es : List Event} (run : p.Leads S w es q v) : p.Leads anyhow () es q () :=
  run.map (fun _ => ()) fun _ _ _ _ => trivial

theorem sound_together : s.Sound task (s.together task now m) :=
  ⟨fun _ => .refl _ _, fun _ ht => nomatch ht⟩

theorem Sound.step (h : s.Sound task P) (step : P.Step mv Q) : s.Sound task Q := by
  cases step with
  | @tick now i e q m later run =>
    refine ⟨fun k => ?_, fun t ht => ?_⟩
    · dsimp only
      by_cases hk : k = i
      · subst hk
        rw [Function.update_self]
        exact (h.ticks k).trans (anyhow_of_leads run)
      · rw [Function.update_of_ne hk]
        exact h.ticks k
    · obtain ht | ht := List.mem_append.1 ht
      · exact h.jobs t ht
      · obtain ⟨p, hp, rfl⟩ := List.mem_map.1 ht
        exact ⟨p, e.meek_starts p hp, .refl _ _⟩
  | @job now j u e q m later started run =>
    refine ⟨h.ticks, fun t ht => ?_⟩
    obtain ht | rfl := List.mem_or_eq_of_mem_set ht
    · exact h.jobs t ht
    · obtain ⟨p, hp, hu⟩ := h.jobs u (List.mem_of_getElem? started)
      exact ⟨p, hp, hu.trans (anyhow_of_leads run)⟩

theorem Sound.of_reaches {allowed : Replicas n → Move n → Prop} {ms : List (Move n)}
    (run : Reaches (s.together task now m) allowed ms P) : s.Sound task P := by
  induction run with
  | start => exact sound_together
  | step _ _ step ih => exact ih.step step

theorem Sound.conduct (h : s.Sound task P) (step : P.Step mv Q) {i : Fin n}
    (hi : mv.actor = .tick i) : ∃ st st', s.stands task P i = some st ∧
      s.conduct (task i) st mv.event = some st' ∧ s.stands task Q i = some st' := by
  obtain ⟨st, hst, -⟩ := conducted (h.ticks i)
  obtain ⟨st', hst', -⟩ := conducted ((h.step step).ticks i)
  refine ⟨st, st', hst, ?_, hst'⟩
  cases step with
  | tick later run =>
    cases hi
    simpa only [Function.update_self, standing_concat, hst, Option.bind_some] using hst'
  | job _ _ _ => cases hi

theorem stands_of_ne (step : P.Step mv Q) {i : Fin n} (hi : mv.actor ≠ .tick i) :
    s.stands task Q i = s.stands task P i := by
  rw [stands, stands, step.ticks_of_ne hi]

theorem Sound.meek (h : s.Sound task P) (step : P.Step mv Q) {j : Nat} (hj : mv.actor = .job j) :
    mv.event.request.isMeek = true := by
  cases step with
  | tick _ _ => cases hj
  | @job _ _ u e _ _ _ started run =>
    obtain ⟨p, hp, hu⟩ := h.jobs u (List.mem_of_getElem? started)
    exact hp.requests (hu.trans (anyhow_of_leads run)) e (by simp)

end Setup

namespace Simulation
open Surroundings Replicas

variable {n : Nat} {α : Type}

structure Call (n : Nat) where
  actor : Actor n
  later : Nat := 0
  chain : Chain → Chain := id
  cutOff : Bool := false

def Call.prepare (c : Call n) (w : World) : World :=
  { w with
    now := w.now + c.later, chain := c.chain w.chain
    store := { w.store with unavailable := c.cutOff } }

def nextEvent : Nat → Program α → World → Option (Event × Program α × World)
  | 0, _, _ | _ + 1, .done _, _ => none
  | _ + 1, .ask r k, w => some (⟨r, (w.reply r).1⟩, k (w.reply r).1, (w.reply r).2)
  | depth + 1, .call l k, w => nextEvent depth (l.body.bind k) w

theorem timed_reply (w : World) (r : Request) :
    timed w.now w.store.memory ⟨r, (w.reply r).1⟩ (w.reply r).2.store.memory := by
  cases r with
  | store c =>
    simp only [timed, World.reply, FaultyStore.call]
    split
    · exact .inr ⟨_, rfl, rfl⟩
    · split
      · exact .inr ⟨_, rfl, rfl⟩
      · exact .inl rfl
  | _ => rfl

theorem reply_now (w : World) (r : Request) : (w.reply r).2.now = w.now := by
  cases r <;> rfl

theorem leads_nextEvent {depth : Nat} {p q : Program α} {w v : World} {e : Event}
    (h : nextEvent depth p w = some (e, q, v)) :
    p.Leads (timed w.now) w.store.memory [e] q v.store.memory ∧ v.now = w.now := by
  induction depth generalizing p with
  | zero => cases h
  | succ depth ih =>
    cases p with
    | done a => cases h
    | ask r k =>
      cases h
      exact ⟨.ask (timed_reply w r) (.refl _ _), reply_now w r⟩
    | call l k =>
      obtain ⟨run, now⟩ := ih h
      exact ⟨.call run, now⟩

def move (P : Replicas n) (w : World) : Actor n → Option (Event × Replicas n × World)
  | .tick i => (nextEvent 8 (P.ticks i).program w).map fun (e, q, v) =>
    (e, ⟨w.now, v.store.memory, Function.update P.ticks i ⟨(P.ticks i).events ++ [e], q⟩,
      P.jobs ++ e.starts.map (Thread.mk [])⟩, v)
  | .job j => P.jobs[j]?.bind fun t => (nextEvent 8 t.program w).map fun (e, q, v) =>
    (e, ⟨w.now, v.store.memory, P.ticks, P.jobs.set j ⟨t.events ++ [e], q⟩⟩, v)

theorem step_move {P Q : Replicas n} {w v : World} {a : Actor n} {e : Event}
    (hm : P.memory = w.store.memory) (later : P.now ≤ w.now) (h : move P w a = some (e, Q, v)) :
    P.Step ⟨w.now, a, e⟩ Q ∧ Q.memory = v.store.memory ∧ Q.now = w.now ∧ v.now = w.now := by
  cases a with
  | tick i =>
    obtain ⟨⟨e', q, v'⟩, hnext, hQ⟩ := Option.map_eq_some_iff.1 h
    cases hQ
    obtain ⟨run, now⟩ := leads_nextEvent hnext
    exact ⟨.tick later (hm ▸ run), rfl, rfl, now⟩
  | job j =>
    obtain ⟨t, started, ht⟩ := Option.bind_eq_some_iff.1 h
    obtain ⟨⟨e', q, v'⟩, hnext, hQ⟩ := Option.map_eq_some_iff.1 ht
    cases hQ
    obtain ⟨run, now⟩ := leads_nextEvent hnext
    exact ⟨.job later started (hm ▸ run), rfl, rfl, now⟩

/-- Replicas moving as they are called on: the moves with the states they were made in, what they
come to, and the world then. -/
def perform : List (Call n) → Replicas n → World →
    List (Replicas n × Move n) × Replicas n × World
  | [], P, w => ([], P, w)
  | c :: cs, P, w =>
    match move P (c.prepare w) c.actor with
    | none => perform cs P (c.prepare w)
    | some (e, Q, v) =>
      let rest := perform cs Q v
      ((P, ⟨(c.prepare w).now, c.actor, e⟩) :: rest.1, rest.2)

theorem reaches_perform {first : Replicas n} {allowed : Replicas n → Move n → Prop}
    {ms : List (Move n)} (cs : List (Call n)) {P : Replicas n} {w : World}
    (before : Reaches first allowed ms P) (hm : P.memory = w.store.memory) (later : P.now ≤ w.now)
    (ok : ∀ x ∈ (perform cs P w).1, allowed x.1 x.2) :
    Reaches first allowed (ms ++ (perform cs P w).1.map Prod.snd) (perform cs P w).2.1 ∧
      (perform cs P w).2.1.memory = (perform cs P w).2.2.store.memory ∧
      (perform cs P w).2.1.now ≤ (perform cs P w).2.2.now := by
  induction cs generalizing ms P w with
  | nil => exact ⟨by simpa [perform] using before, hm, later⟩
  | cons c cs ih =>
    have later' : P.now ≤ (c.prepare w).now := Nat.le_trans later (Nat.le_add_right _ _)
    have hm' : P.memory = (c.prepare w).store.memory := hm
    rw [perform] at ok ⊢
    split at ok
    · exact ih before hm' later' ok
    · rename_i e Q v moved
      obtain ⟨step, memory, now, same⟩ := step_move hm' later' moved
      have le : Q.now ≤ v.now := Nat.le_of_eq (now.trans same.symm)
      have rest := ih (before.step (ok (P, ⟨_, c.actor, e⟩) (by simp)) step) memory le
        fun x hx => ok x (by simp [hx])
      simpa using rest

end Simulation
end BridgeNotifier
