import BridgeNotifier.Proofs.Sweep
set_option autoImplicit false

/-!
# Histories of ticks

Ticks of the five tasks one after another on one shared store. Nothing is assumed about the chains,
the tables, the clocks and the leases: every call may be answered in any way or fail, and a tick may
be dropped at any point. Only the numbers of the store are what was written last.
-/
namespace BridgeNotifier

namespace Surroundings

/-- A store in memory that may fail to answer. Leases come and go meanwhile, and other calls may be
answered in any way. -/
def shared : Surroundings Memory := fun m e n =>
  match e with
  | ⟨.store c, x⟩ =>
    (∃ leases now, (x, n) = Memory.call now { m with leases := leases } c) ∨
      (∃ err, x = .error err ∧ n = m)
  | _ => n = m

/-- The shared store, with leases that change between calls in the ways `R` allows. -/
def sharing (R : (String → Option Held) → (String → Option Held) → Prop) : Surroundings Memory :=
  fun m e n =>
    match e with
    | ⟨.store c, x⟩ =>
      (∃ leases now, R m.leases leases ∧ (x, n) = Memory.call now { m with leases := leases } c) ∨
        (∃ err, x = .error err ∧ n = m)
    | _ => n = m

theorem shared_of_sharing {R : (String → Option Held) → (String → Option Held) → Prop} {m n : Memory}
    {e : Event} (h : sharing R m e n) : shared m e n := by
  obtain ⟨r, x⟩ := e
  cases r with
  | store c => exact h.imp_left fun ⟨leases, now, _, hx⟩ => ⟨leases, now, hx⟩
  | _ => exact h

def numbers : Surroundings (String → Option UInt64) := fun f e g =>
  match e with
  | ⟨.store (.setInt key value), .ok _⟩ => g = Function.update f key (some value)
  | ⟨.store (.getInt key), .ok v⟩ => v = f key ∧ g = f
  | _ => g = f

theorem numbers_of_shared {m n : Memory} {e : Event} (h : shared m e n) :
    numbers m.ints e n.ints := by
  obtain ⟨r, x⟩ := e
  cases r with
  | store c =>
    obtain ⟨leases, now, hx⟩ | ⟨err, rfl, rfl⟩ := h
    · cases c with
      | getInt key => cases hx; exact ⟨rfl, rfl⟩
      | setInt key value => cases hx; exact congrArg Memory.ints (Memory.writeInt_eq ..)
      | tryLock key token ttl =>
        simp only [Memory.call] at hx
        split at hx <;> · cases hx; rfl
      | extendLock key token ttl =>
        simp only [Memory.call] at hx
        split at hx
        · split at hx <;> · cases hx; rfl
        · cases hx; rfl
      | releaseLock key token =>
        simp only [Memory.call] at hx
        split at hx
        · split at hx <;> · cases hx; rfl
        · cases hx; rfl
      | push key timestamp => cases hx; rfl
      | popOldest key =>
        simp only [Memory.call] at hx
        split at hx <;> · cases hx; rfl
      | length key => cases hx; rfl
    · cases c <;> rfl
  | chain c | records c | depth | chainIds | sampleClock | millis | instant | token | requestId
  | send e | measure m | launch d n | hold l | letGo l | pause i s => exact congrArg Memory.ints h

theorem eq_of_numbers {f g : String → Option UInt64} {e : Event} (h : numbers f e g)
    (hq : e.isQuiet = true) : g = f := by
  obtain ⟨r, x⟩ := e
  cases r with
  | store c =>
    cases c with
    | getInt key =>
      cases x with
      | ok v => exact h.2
      | error err => exact h
    | setInt key value =>
      cases x with
      | ok v => cases hq
      | error err => exact h
    | tryLock _ _ _ | extendLock _ _ _ | releaseLock _ _ | push _ _ | popOldest _ | length _ => exact h
  | chain c | records c | depth | chainIds | sampleClock | millis | instant | token | requestId
  | send e | measure m | launch d n | hold l | letGo l | pause i s => exact h

theorem numbers_of_ne {f g : String → Option UInt64} {e : Event} {key : String}
    (h : numbers f e g) (other : ∀ value, e.request ≠ .store (.setInt key value)) :
    g key = f key := by
  cases hq : e.isQuiet with
  | true => exact congrFun (eq_of_numbers h hq) key
  | false =>
    obtain ⟨r, x⟩ := e
    cases r with
    | store c =>
      cases c with
      | setInt k value =>
        cases x with
        | ok v =>
          have apart : key ≠ k := fun same => other value (by rw [same])
          exact (congrFun h key).trans (Function.update_of_ne apart _ _)
        | error err => cases hq
      | _ => cases x <;> cases hq
    | _ => exact congrFun h key

variable {ω : Type} {note : ω → Event → ω} {E : Error → (String → Option UInt64) × ω → Prop}

theorem numbers_shows {allowed : Event → Prop} (quiet : ∀ o e, e.isQuiet = true → note o e = o)
    (failed : ∀ e err t, allowed e → e.error? = some err → E err t) :
    ((numbers.only allowed).noted note).Shows Prod.fst E where
  quiet := by
    intro s e t h hq
    exact Prod.ext (eq_of_numbers h.1.2 hq) (h.2.trans (quiet _ _ hq))
  read h := h.1.2.1
  write h := h.1.2
  records h := h.1.2
  launch h := h.1.2
  depth h := h.1.2
  failed h he := failed _ _ _ h.1.1 he

abbrev numbered (allowed : Event → Prop) : Surroundings ((String → Option UInt64) × Unit) :=
  (numbers.only allowed).noted fun o _ => o

theorem numbered_shows {allowed : Event → Prop} :
    (numbered allowed).Shows Prod.fst fun _ _ => True :=
  numbers_shows (fun _ _ _ => rfl) fun _ _ _ _ _ => trivial

theorem numbered_still {allowed : Event → Prop} {w t : (String → Option UInt64) × Unit} {r : Request}
    {x : r.Reply} (h : numbered allowed w ⟨r, x⟩ t) (hr : ∀ c, r ≠ .store c) : t = w := by
  refine Prod.ext ?_ h.2
  cases r with
  | store c => exact absurd rfl (hr c)
  | _ => exact h.1.2

end Surroundings

/-- A tick of a task as far as it came: its events, and its result if it came to its end. -/
structure Tick where
  task : Task
  events : List Event
  result : Option (Except Error Outcome)

/-- Ticks one after another, with the states of the surroundings at both ends. A tick that did not
come to its end is under way, or was dropped where it stood. -/
inductive Setup.Runs {σ : Type} (s : Setup) (S : Surroundings σ) (first : σ) :
    List Tick → σ → Prop where
  | start : Runs s S first [] first
  | tick {ts : List Tick} {w u : σ} {es : List Event} {p : Program (Except Error Outcome)}
      (before : Runs s S first ts w) (t : Task) (run : (s.tick t).run.Leads S w es p u) :
      Runs s S first (ts ++ [⟨t, es, p.result?⟩]) u

end BridgeNotifier
