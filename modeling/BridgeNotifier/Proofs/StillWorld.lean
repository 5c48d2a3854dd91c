import BridgeNotifier.Proofs.Completion
import BridgeNotifier.Proofs.Footprint
import BridgeNotifier.Proofs.NoTrace
import BridgeNotifier.Proofs.Replicas
import BridgeNotifier.Proofs.ValidSettings
import Mathlib.Data.List.Nodup
set_option autoImplicit false

/-!
# A still world

Chains, tables, live values and clocks stand still, no time passes and no call fails. What a tick
does then rests on its own part of the store only, and it changes only that part, so the order of
ticks of two tasks does not matter.
-/
namespace BridgeNotifier
open Surroundings

/-- What the chains, the tables, the live values and the clocks answer. -/
structure Stillness extends Answers where
  chainIds : ChainIds
  sampleClock : UInt64
  millis : UInt64

/-- The event is answered so, and no call fails. No time passes, so no pause comes to its end. -/
def Stillness.holds (a : Stillness) (e : Event) : Prop :=
  a.agrees e ∧ e.error? = none ∧
    match e with
    | ⟨.chainIds, ids⟩ => ids = a.chainIds
    | ⟨.sampleClock, now⟩ => now = a.sampleClock
    | ⟨.millis, millis⟩ => millis = a.millis
    | ⟨.send _, x⟩ => x = .ok ()
    | ⟨.pause .., due⟩ => due = false
    | _ => True

instance (a : Stillness) (e : Event) : Decidable (a.holds e) :=
  @instDecidableAnd _ _ inferInstance <| @instDecidableAnd _ _ inferInstance <|
    match e with
    | ⟨.chainIds, ids⟩ => inferInstanceAs (Decidable (ids = a.chainIds))
    | ⟨.sampleClock, now⟩ => inferInstanceAs (Decidable (now = a.sampleClock))
    | ⟨.millis, millis⟩ => inferInstanceAs (Decidable (millis = a.millis))
    | ⟨.send _, x⟩ => inferInstanceAs (Decidable (x = .ok ()))
    | ⟨.pause .., due⟩ => inferInstanceAs (Decidable (due = false))
    | ⟨.store _, _⟩ | ⟨.chain _, _⟩ | ⟨.records _, _⟩ | ⟨.depth, _⟩ | ⟨.instant, _⟩ | ⟨.token, _⟩
    | ⟨.requestId, _⟩ | ⟨.measure _, _⟩ | ⟨.launch .., _⟩ | ⟨.hold _, _⟩ | ⟨.letGo _, _⟩ =>
      inferInstanceAs (Decidable True)

abbrev Surroundings.quiet (a : Stillness) (now : Nat) : Surroundings Memory :=
  (timed now).only a.holds

namespace Surroundings

variable {a : Stillness} {now : Nat} {m n : Memory}

theorem quiet_store {c : StoreCall} {x : Except Error c.Answer} (h : quiet a now m ⟨.store c, x⟩ n) :
    ∃ y, x = .ok y ∧ (.ok y, n) = Memory.call now m c := by
  obtain ⟨⟨-, sound, -⟩, h | ⟨err, rfl, -⟩⟩ := h
  · cases x with
    | ok y => exact ⟨y, rfl, h⟩
    | error err => cases sound
  · cases sound

theorem quiet_chain {c : ChainCall} {x : Except Error UInt64} (h : quiet a now m ⟨.chain c, x⟩ n) :
    x = .ok (a.chain c) := by
  obtain ⟨⟨agrees, sound, -⟩, -⟩ := h
  cases x with
  | ok y => exact congrArg Except.ok agrees
  | error err => cases sound

theorem quiet_records {c : RecordCall} {x : Except Error c.Answer}
    (h : quiet a now m ⟨.records c, x⟩ n) : x = .ok (a.table.answer c) := by
  obtain ⟨⟨agrees, sound, -⟩, -⟩ := h
  cases x with
  | ok y => exact congrArg Except.ok agrees
  | error err => cases sound

end Surroundings

namespace Task

def numbers : Task → List String
  | .maturity => [Watermark.head.name, Watermark.scanned.name]
  | .batch r => [r.batch.name, r.ceiling.name, r.averageName]
  | .feed f => [f.watermark.name]

theorem numbers_apart : ∀ A ∈ all, ∀ B ∈ all, ∀ name ∈ A.numbers, name ∈ B.numbers → A = B := by
  decide

end Task

namespace Setup

/-- The stores hold the same numbers and the same window of a task. -/
structure SamePart (s : Setup) (t : Task) (m n : Memory) : Prop where
  ints : ∀ key ∈ s.owned t, n.ints key = m.ints key
  lists : ∀ key ∈ s.windows t, n.lists key = m.lists key

structure SameBeyond (s : Setup) (t : Task) (m n : Memory) : Prop where
  ints : ∀ key ∉ s.owned t, n.ints key = m.ints key
  lists : ∀ key ∉ s.windows t, n.lists key = m.lists key
  leases : ∀ key ≠ s.lockKey t, n.leases key = m.leases key

variable {s : Setup} {t u : Task} {a : Stillness} {now : Nat} {l m n m' n' : Memory}

theorem SameBeyond.refl (m : Memory) : s.SameBeyond t m m :=
  ⟨fun _ _ => rfl, fun _ _ => rfl, fun _ _ => rfl⟩

theorem SameBeyond.trans (h : s.SameBeyond t l m) (h' : s.SameBeyond t m n) :
    s.SameBeyond t l n where
  ints key hk := (h'.ints key hk).trans (h.ints key hk)
  lists key hk := (h'.lists key hk).trans (h.lists key hk)
  leases key hk := (h'.leases key hk).trans (h.leases key hk)

theorem SamePart.writeInt (h : s.SamePart t m n) (key : String) (value : UInt64) :
    s.SamePart t (m.writeInt key value) (n.writeInt key value) := by
  rw [Memory.writeInt_eq, Memory.writeInt_eq]
  refine ⟨fun k hk => ?_, h.lists⟩
  by_cases hkey : k = key
  · subst hkey
    simp only [Function.update_self]
  · simpa only [Function.update_of_ne hkey _ _] using h.ints k hk

theorem SamePart.writeList (h : s.SamePart t m n) (key : String) (list : List UInt64) :
    s.SamePart t (m.writeList key list) (n.writeList key list) := by
  rw [Memory.writeList_eq, Memory.writeList_eq]
  refine ⟨h.ints, fun k hk => ?_⟩
  by_cases hkey : k = key
  · subst hkey
    simp only [Function.update_self]
  · simpa only [Function.update_of_ne hkey _ _] using h.lists k hk

theorem quiet_unique {r : Request} {x y : r.Reply} (asks : s.asks t r)
    (hx : quiet a now m ⟨r, x⟩ m') (hy : quiet a now m ⟨r, y⟩ n') : y = x ∧ n' = m' := by
  cases r with
  | store c =>
    obtain ⟨v, rfl, hv⟩ := quiet_store hx
    obtain ⟨w, rfl, hw⟩ := quiet_store hy
    have same := hw.trans hv.symm
    exact ⟨congrArg Prod.fst same, congrArg Prod.snd same⟩
  | chain c => exact ⟨(quiet_chain hy).trans (quiet_chain hx).symm, hy.2.trans hx.2.symm⟩
  | records c => exact ⟨(quiet_records hy).trans (quiet_records hx).symm, hy.2.trans hx.2.symm⟩
  | depth => exact ⟨hy.1.1.trans hx.1.1.symm, hy.2.trans hx.2.symm⟩
  | sampleClock => exact ⟨hy.1.2.2.trans hx.1.2.2.symm, hy.2.trans hx.2.symm⟩
  | measure _ | launch _ _ => exact ⟨rfl, hy.2.trans hx.2.symm⟩
  | _ => exact asks.elim

/-- What a sweep is answered rests on the part of its task alone. -/
theorem quiet_of_part {e : Event} (asks : s.asks t e.request) (same : s.SamePart t m n)
    (h : quiet a now m e m') : ∃ n', quiet a now n e n' ∧ s.SamePart t m' n' := by
  obtain ⟨r, x⟩ := e
  cases r with
  | store c =>
    obtain ⟨v, rfl, hv⟩ := quiet_store h
    cases c with
    | getInt key =>
      cases hv
      have found : (Except.ok (m.ints key), n) = Memory.call now n (.getInt key) := by
        rw [← same.ints key asks]
        rfl
      exact ⟨n, ⟨h.1, .inl found⟩, same⟩
    | setInt key value =>
      cases hv
      exact ⟨_, ⟨h.1, .inl rfl⟩, same.writeInt key value⟩
    | push key timestamp =>
      cases hv
      have pushed : Memory.call now n (.push key timestamp) =
          (.ok (UInt64.ofNat (timestamp :: m.lists key).length),
            n.writeList key (timestamp :: m.lists key)) := by
        rw [← same.lists key asks]
        rfl
      exact ⟨_, ⟨h.1, .inl pushed.symm⟩, same.writeList key _⟩
    | popOldest key =>
      simp only [Memory.call] at hv
      cases last : (m.lists key).getLast? with
      | none =>
        rw [last] at hv
        cases hv
      | some oldest =>
        rw [last] at hv
        cases hv
        have popped : Memory.call now n (.popOldest key) =
            (.ok v, n.writeList key (m.lists key).dropLast) := by
          simp only [Memory.call, same.lists key asks, last]
        exact ⟨_, ⟨h.1, .inl popped.symm⟩, same.writeList key _⟩
    | _ => exact asks.elim
  | _ =>
    obtain rfl : m' = m := h.2
    exact ⟨n, ⟨h.1, rfl⟩, same⟩

theorem stays_beyond {e : Event} (asks : s.asks t e.request) (h : quiet a now m e m') :
    s.SameBeyond t m m' ∧ m'.leases = m.leases ∧
      m'.writes = m.writes + if e.request.isWrite then 1 else 0 := by
  obtain ⟨r, x⟩ := e
  cases r with
  | store c =>
    obtain ⟨v, rfl, hv⟩ := quiet_store h
    cases c with
    | getInt key =>
      cases hv
      exact ⟨.refl m, rfl, rfl⟩
    | setInt key value =>
      cases hv
      refine ⟨⟨fun k hk => if_neg ?_, fun _ _ => rfl, fun _ _ => rfl⟩, rfl, rfl⟩
      rintro rfl
      exact hk asks
    | push key timestamp =>
      cases hv
      refine ⟨⟨fun _ _ => rfl, fun k hk => if_neg ?_, fun _ _ => rfl⟩, rfl, rfl⟩
      rintro rfl
      exact hk asks
    | popOldest key =>
      simp only [Memory.call] at hv
      cases last : (m.lists key).getLast? with
      | none =>
        rw [last] at hv
        cases hv
      | some oldest =>
        rw [last] at hv
        cases hv
        refine ⟨⟨fun _ _ => rfl, fun k hk => if_neg ?_, fun _ _ => rfl⟩, rfl, rfl⟩
        rintro rfl
        exact hk asks
    | _ => exact asks.elim
  | _ =>
    obtain rfl : m' = m := h.2
    exact ⟨.refl m', rfl, rfl⟩

variable {α : Type} {p : Program α} {q : Program α} {es es' : List Event} {x y : α}

theorem run_of_part (own : p.Within (s.asks t) (s.loops t)) (same : s.SamePart t m n)
    (run : p.Leads (quiet a now) m es q m') :
    ∃ n', p.Leads (quiet a now) n es q n' ∧ s.SamePart t m' n' := by
  induction run generalizing n with
  | refl p m => exact ⟨n, .refl p n, same⟩
  | ask h rest ih =>
    obtain ⟨n₁, h', same'⟩ := quiet_of_part own.1 same h
    obtain ⟨n₂, rest', same''⟩ := ih (own.2 _) same'
    exact ⟨n₂, .ask h' rest', same''⟩
  | call rest ih =>
    obtain ⟨n', rest', same'⟩ := ih (Program.within_bind (sweeps_loop own.1) own.2) same
    exact ⟨n', .call rest', same'⟩

theorem run_unique (own : p.Within (s.asks t) (s.loops t))
    (run : p.Leads (quiet a now) m es (.done x) m')
    (run' : p.Leads (quiet a now) m es' (.done y) n') : es' = es ∧ y = x ∧ n' = m' := by
  generalize hx : Program.done x = q at run
  induction run generalizing es' with
  | refl p m =>
    subst hx
    generalize hy : Program.done y = q at run'
    cases run' with
    | refl => exact ⟨rfl, by injection hy, rfl⟩
  | ask h rest ih =>
    cases run' with
    | ask h' rest' =>
      obtain ⟨rfl, rfl⟩ := quiet_unique own.1 h h'
      obtain ⟨rfl, result, memory⟩ := ih (own.2 _) rest' hx
      exact ⟨rfl, result, memory⟩
  | call rest ih =>
    cases run' with
    | call rest' => exact ih (Program.within_bind (sweeps_loop own.1) own.2) rest' hx

theorem beyond_of_run (own : p.Within (s.asks t) (s.loops t))
    (run : p.Leads (quiet a now) m es q m') : s.SameBeyond t m m' ∧ m'.leases = m.leases ∧
      m'.writes = m.writes + es.countP fun e => e.request.isWrite := by
  induction run with
  | refl p m => exact ⟨.refl m, rfl, rfl⟩
  | @ask r k x m l m' es q h rest ih =>
    obtain ⟨first, leases, writes⟩ := stays_beyond own.1 h
    obtain ⟨later, leases', writes'⟩ := ih (own.2 _)
    refine ⟨first.trans later, leases'.trans leases, ?_⟩
    rw [writes', writes, List.countP_cons]
    omega
  | call rest ih => exact ih (Program.within_bind (sweeps_loop own.1) own.2)

theorem run_tick_eq : (s.tick t).run = .ask .token fun token =>
    .ask (.store (.tryLock (s.lockKey t) token s.config.lockTtl)) fun taken =>
      match taken with
      | .error e => .done (.error e)
      | .ok false => .done (.ok .locked)
      | .ok true =>
        .ask (.hold ⟨s.lockKey t, token, s.config.lockTtl⟩) fun _ =>
          (s.sweep t).run.bind fun outcome =>
            .ask (.letGo ⟨s.lockKey t, token, s.config.lockTtl⟩) fun _ =>
              .ask (.store (.releaseLock (s.lockKey t) token)) fun _ => .done outcome := by
  refine congrArg (Program.ask .token) (funext fun token => congrArg (Program.ask _) ?_)
  funext taken
  rcases taken with e | _ | _
  · rfl
  · rfl
  · refine congrArg (Program.ask _) (funext fun _ => ?_)
    exact Program.bind_assoc (s.sweep t).run
      (fun outcome => .done (Except.ok outcome : Except Error (Except Error Outcome)))
      (ExceptT.bindCont fun outcome => do
        ExceptT.lift (Lock.release ⟨s.lockKey t, token, s.config.lockTtl⟩)
        Routine.ofProgram (pure outcome))

def work (es : List Event) : List Event :=
  es.filter fun e => !e.request.isGuard

theorem not_isGuard_of_asks {r : Request} (h : s.asks t r) : r.isGuard = false := by
  cases r with
  | store c => cases c <;> first | rfl | exact h.elim
  | token | hold l | letGo l => exact h.elim
  | _ => rfl

theorem held_lease {key token : String} {ttl : Interval}
    (h : m.leases key = some (Memory.lease now token ttl)) :
    (m.held? now key).map Held.token = some token := by
  have later : now < now + max ttl.nanos 1000000 := by omega
  have held : m.held? now key = some (Memory.lease now token ttl) :=
    Option.filter_eq_some_iff.2 ⟨h, decide_eq_true later⟩
  rw [held]
  rfl

abbrev underLock (s : Setup) (t : Task) (now : Nat) (token : String) (m : Memory) : Memory :=
  { m with
    leases := Function.update m.leases (s.lockKey t) (some (Memory.lease now token s.config.lockTtl)) }

/-- What a tick comes to in a still world: it finds its lock taken, or sweeps under it and gives it
up. -/
inductive TickRun (s : Setup) (t : Task) (a : Stillness) (now : Nat) (m : Memory) :
    List Event → Except Error Outcome → Memory → Prop where
  | locked {es : List Event} (held : m.held? now (s.lockKey t) ≠ none) (idle : work es = []) :
      TickRun s t a now m es (.ok .locked) m
  | swept {es : List Event} {r : Except Error Outcome} {n : Memory} (token : String)
      (free : m.held? now (s.lockKey t) = none)
      (sweep : (s.sweep t).run.Leads (quiet a now) (s.underLock t now token m) (work es) (.done r)
        n) :
      TickRun s t a now m es r { n with leases := Function.update n.leases (s.lockKey t) none }

theorem tickRun {r : Except Error Outcome}
    (run : (s.tick t).run.Leads (quiet a now) m es (.done r) n) : s.TickRun t a now m es r n := by
  rw [run_tick_eq] at run
  cases run with
  | @ask _ _ token _ m₁ _ es₁ _ named rest =>
    obtain rfl : m₁ = m := named.2
    cases rest with
    | @ask _ _ taken _ m₂ _ es₂ _ tried rest =>
      obtain ⟨y, rfl, answered⟩ := quiet_store tried
      cases y with
      | false =>
        obtain rfl := timed_refused (by simp) tried.2
        cases rest
        refine .locked (fun free => ?_) rfl
        rw [Memory.call_tryLock_free free] at answered
        cases answered
      | true =>
        obtain ⟨free, rfl⟩ := timed_taken tried.2
        cases rest with
        | @ask _ _ _ _ m₃ _ es₃ _ held rest =>
          obtain rfl := held.2
          obtain ⟨swept, outcome, mid, left, first, last, rfl⟩ := rest.of_bind
          have asked := (Program.Within.rest (sweeps_sweep t) (fun _ => sweeps_loop) first).2
          have kept := (beyond_of_run (sweeps_sweep t) first).2.1
          cases last with
          | @ask _ _ _ _ m₄ _ es₄ _ told rest =>
            obtain rfl : m₄ = mid := told.2
            cases rest with
            | @ask _ _ released _ m₅ _ es₅ _ given rest =>
              cases rest
              obtain ⟨y, rfl, answered⟩ := quiet_store given
              have lease : m₄.leases (s.lockKey t) =
                  some (Memory.lease now token s.config.lockTtl) := by
                rw [kept]
                exact Function.update_self ..
              rw [Memory.call_releaseLock_own (held_lease lease)] at answered
              cases answered
              have all : work swept = swept :=
                List.filter_eq_self.2 fun e he => by simp [not_isGuard_of_asks (asked e he)]
              have inner : ∀ x y, work (swept ++ [⟨.letGo ⟨s.lockKey t, token, s.config.lockTtl⟩, x⟩,
                  ⟨.store (.releaseLock (s.lockKey t) token), y⟩]) = swept := by
                intro x y
                rw [work, List.filter_append]
                exact (congrArg (· ++ []) all).trans (List.append_nil swept)
              exact .swept token free ((inner _ _).symm ▸ first)

theorem TickRun.leads {r : Except Error Outcome} (run : s.TickRun t a now m es r n) :
    ∃ es', (s.tick t).run.Leads (quiet a now) m es' (.done r) n := by
  rw [run_tick_eq]
  have named : ∀ token, quiet a now m ⟨.token, token⟩ m := fun token =>
    ⟨⟨trivial, rfl, trivial⟩, rfl⟩
  cases run with
  | locked held idle =>
    obtain ⟨lease, taken⟩ := Option.ne_none_iff_exists'.1 held
    have refused : quiet a now m ⟨.store (.tryLock (s.lockKey t) "" s.config.lockTtl), .ok false⟩ m :=
      ⟨⟨trivial, rfl, trivial⟩, .inl (Memory.call_tryLock_held taken).symm⟩
    exact ⟨_, .ask (named "") (.ask refused (.refl _ m))⟩
  | @swept _ n token free sweep =>
    have taken : quiet a now m ⟨.store (.tryLock (s.lockKey t) token s.config.lockTtl), .ok true⟩ _ :=
      ⟨⟨trivial, rfl, trivial⟩, .inl (Memory.call_tryLock_free free).symm⟩
    have lease : n.leases (s.lockKey t) = some (Memory.lease now token s.config.lockTtl) := by
      rw [(beyond_of_run (sweeps_sweep t) sweep).2.1]
      exact Function.update_self ..
    have given : quiet a now n ⟨.store (.releaseLock (s.lockKey t) token), .ok true⟩ _ :=
      ⟨⟨trivial, rfl, trivial⟩, .inl (Memory.call_releaseLock_own (held_lease lease)).symm⟩
    have told : ∀ {m : Memory} {l : Lease},
        quiet a now m ⟨.hold l, ()⟩ m ∧ quiet a now m ⟨.letGo l, ()⟩ m :=
      ⟨⟨⟨trivial, rfl, trivial⟩, rfl⟩, ⟨⟨trivial, rfl, trivial⟩, rfl⟩⟩
    have last : Program.Leads (quiet a now) (.ask (.letGo ⟨s.lockKey t, token, s.config.lockTtl⟩)
        fun _ => .ask (.store (.releaseLock (s.lockKey t) token)) fun _ => .done r) n _ _ _ :=
      .ask told.2 (.ask given (.refl (.done r) _))
    exact ⟨_, .ask (named token) (.ask taken (.ask told.1 ((sweep.bind _).trans last)))⟩

theorem TickRun.beyond {r : Except Error Outcome} (run : s.TickRun t a now m es r n) :
    s.SameBeyond t m n ∧ n.writes = m.writes + (work es).countP fun e => e.request.isWrite := by
  cases run with
  | locked held idle =>
    rw [idle]
    exact ⟨.refl m, rfl⟩
  | swept token free sweep =>
    obtain ⟨rest, leases, writes⟩ := beyond_of_run (sweeps_sweep t) sweep
    refine ⟨⟨rest.ints, rest.lists, fun key hk => ?_⟩, writes⟩
    dsimp only
    rw [Function.update_of_ne hk _ _, leases]
    exact Function.update_of_ne hk _ _

structure SameFor (s : Setup) (t : Task) (m n : Memory) : Prop extends s.SamePart t m n where
  lease : n.leases (s.lockKey t) = m.leases (s.lockKey t)

theorem TickRun.transfer {r : Except Error Outcome} (same : s.SameFor t m n)
    (run : s.TickRun t a now m es r m') : ∃ n', s.TickRun t a now n es r n' ∧ s.SameFor t m' n' := by
  have held : n.held? now (s.lockKey t) = m.held? now (s.lockKey t) :=
    congrArg (Option.filter _) same.lease
  cases run with
  | locked taken idle => exact ⟨n, .locked (held ▸ taken) idle, same⟩
  | swept token free sweep =>
    have start : s.SamePart t (s.underLock t now token m) (s.underLock t now token n) :=
      ⟨same.ints, same.lists⟩
    obtain ⟨n', sweep', parts⟩ := run_of_part (sweeps_sweep t) start sweep
    refine ⟨_, .swept token (held.trans free) sweep', ⟨parts.ints, parts.lists⟩, ?_⟩
    simp only [Function.update_self]

theorem TickRun.unique {x y : Except Error Outcome} (run : s.TickRun t a now m es x m')
    (run' : s.TickRun t a now m es' y n') : work es' = work es ∧ y = x ∧ s.SameFor t m' n' := by
  cases run with
  | locked taken idle =>
    cases run' with
    | locked taken' idle' =>
      exact ⟨idle'.trans idle.symm, rfl, ⟨fun _ _ => rfl, fun _ _ => rfl⟩, rfl⟩
    | swept token free sweep => exact absurd free taken
  | swept token free sweep =>
    cases run' with
    | locked taken' idle' => exact absurd free taken'
    | swept token' free' sweep' =>
      have start : s.SamePart t (s.underLock t now token m) (s.underLock t now token' m) :=
        ⟨fun _ _ => rfl, fun _ _ => rfl⟩
      obtain ⟨n, moved, parts⟩ := run_of_part (sweeps_sweep t) start sweep
      obtain ⟨events, result, rfl⟩ := run_unique (sweeps_sweep t) moved sweep'
      refine ⟨events, result, ⟨parts.ints, parts.lists⟩, ?_⟩
      simp only [Function.update_self]

theorem TickRun.same {x y : Except Error Outcome} (same : s.SameFor t m n)
    (run : s.TickRun t a now m es x m') (run' : s.TickRun t a now n es' y n') :
    work es' = work es ∧ y = x ∧ s.SameFor t m' n' := by
  obtain ⟨l, moved, parts⟩ := run.transfer same
  obtain ⟨events, result, rest⟩ := moved.unique run'
  exact ⟨events, result, ⟨fun key hk => (rest.ints key hk).trans (parts.ints key hk),
    fun key hk => (rest.lists key hk).trans (parts.lists key hk)⟩, rest.lease.trans parts.lease⟩

variable {A B : Task}

structure Apart (s : Setup) (A B : Task) : Prop where
  ints : ∀ key ∈ s.owned A, key ∉ s.owned B
  lists : ∀ key ∈ s.windows A, key ∉ s.windows B
  locks : s.lockKey A ≠ s.lockKey B

theorem Apart.symm (h : s.Apart A B) : s.Apart B A :=
  ⟨fun key hB hA => h.ints key hA hB, fun key hB hA => h.lists key hA hB, h.locks.symm⟩

theorem SameBeyond.sameFor (h : s.Apart A B) (beyond : s.SameBeyond A m n) : s.SameFor B m n where
  ints key hk := beyond.ints key fun hA => h.ints key hA hk
  lists key hk := beyond.lists key fun hA => h.lists key hA hk
  lease := beyond.leases _ h.locks.symm

theorem SameFor.symm (h : s.SameFor t m n) : s.SameFor t n m where
  ints key hk := (h.ints key hk).symm
  lists key hk := (h.lists key hk).symm
  lease := h.lease.symm

theorem TickRun.commute {es₁ es₂ es₃ es₄ : List Event} {x x' y y' : Except Error Outcome}
    {l₁ l₂ : Memory} (apart : s.Apart A B) (first : s.TickRun A a now m es₁ x l₁)
    (second : s.TickRun B a now l₁ es₂ y l₂) (first' : s.TickRun B a now m es₃ y' m')
    (second' : s.TickRun A a now m' es₄ x' n') :
    (work es₄ = work es₁ ∧ x' = x) ∧ (work es₃ = work es₂ ∧ y' = y) ∧ n' = l₂ := by
  obtain ⟨beyondA, writesA⟩ := first.beyond
  obtain ⟨beyondB, writesB⟩ := second.beyond
  obtain ⟨beyondB', writesB'⟩ := first'.beyond
  obtain ⟨beyondA', writesA'⟩ := second'.beyond
  obtain ⟨workA, resultA, sameA⟩ := first.same (beyondB'.sameFor apart.symm) second'
  obtain ⟨workB, resultB, sameB⟩ := second.same (beyondA.sameFor apart).symm first'
  refine ⟨⟨workA, resultA⟩, ⟨workB, resultB⟩, ?_⟩
  -- a key of `A` is left alone by `B`, and the other way round, and any other key by both
  have leases : n'.leases = l₂.leases := by
    funext key
    by_cases hA : key = s.lockKey A
    · subst hA
      exact sameA.lease.trans (beyondB.leases _ apart.locks).symm
    · by_cases hB : key = s.lockKey B
      · subst hB
        exact (beyondA'.leases _ hA).trans sameB.lease
      · exact (beyondA'.leases _ hA).trans <| (beyondB'.leases _ hB).trans <|
          (beyondA.leases _ hA).symm.trans (beyondB.leases _ hB).symm
  have ints : n'.ints = l₂.ints := by
    funext key
    by_cases hA : key ∈ s.owned A
    · exact (sameA.ints _ hA).trans (beyondB.ints _ (apart.ints _ hA)).symm
    · by_cases hB : key ∈ s.owned B
      · exact (beyondA'.ints _ hA).trans (sameB.ints _ hB)
      · exact (beyondA'.ints _ hA).trans <| (beyondB'.ints _ hB).trans <|
          (beyondA.ints _ hA).symm.trans (beyondB.ints _ hB).symm
  have lists : n'.lists = l₂.lists := by
    funext key
    by_cases hA : key ∈ s.windows A
    · exact (sameA.lists _ hA).trans (beyondB.lists _ (apart.lists _ hA)).symm
    · by_cases hB : key ∈ s.windows B
      · exact (beyondA'.lists _ hA).trans (sameB.lists _ hB)
      · exact (beyondA'.lists _ hA).trans <| (beyondB'.lists _ hB).trans <|
          (beyondA.lists _ hA).symm.trans (beyondB.lists _ hB).symm
  have writes : n'.writes = l₂.writes := by
    rw [writesA', writesB', writesB, writesA, workA, workB]
    omega
  cases n'
  cases l₂
  exact Memory.mk.injEq .. |>.mpr ⟨leases, ints, lists, writes⟩

/-- Two ticks can also be made in the other order. -/
theorem TickRun.exchange {es₁ es₂ : List Event} {x y : Except Error Outcome} {l₁ l₂ : Memory}
    (apart : s.Apart A B) (first : s.TickRun A a now m es₁ x l₁)
    (second : s.TickRun B a now l₁ es₂ y l₂) :
    ∃ n₁ n₂, s.TickRun B a now m es₂ y n₁ ∧ s.TickRun A a now n₁ es₁ x n₂ := by
  obtain ⟨n₁, first', -⟩ := second.transfer (first.beyond.1.sameFor apart).symm
  obtain ⟨n₂, second', -⟩ := first.transfer (first'.beyond.1.sameFor apart.symm)
  exact ⟨n₁, n₂, first', second'⟩

theorem lockKeys_eq (s : Setup) : s.config.lockKeys = Task.all.map s.lockName := rfl

theorem lockName_injective (valid : s.config.validate = .ok ())
    (h : s.lockName A = s.lockName B) : A = B := by
  have nodup := Config.lockKeys_nodup valid
  rw [lockKeys_eq] at nodup
  exact List.inj_on_of_nodup_map nodup A.mem_all B.mem_all h

theorem owned_eq (t : Task) : s.owned t = t.numbers.map (storeKey s.config.namespaceName) := by
  cases t <;> rfl

theorem not_mem_owned (distinct : A ≠ B) {key : String} (hA : key ∈ s.owned A) :
    key ∉ s.owned B := by
  intro hB
  rw [owned_eq] at hA hB
  obtain ⟨name, mem, rfl⟩ := List.mem_map.1 hA
  obtain ⟨name', mem', same⟩ := List.mem_map.1 hB
  obtain rfl := storeKey_injective same
  exact distinct (Task.numbers_apart A A.mem_all B B.mem_all _ mem mem')

theorem not_mem_windows (distinct : A ≠ B) {key : String} (hA : key ∈ s.windows A) :
    key ∉ s.windows B := by
  intro hB
  cases A with
  | batch r =>
    cases B with
    | batch r' =>
      have same : r'.windowName = r.windowName := storeKey_injective
        ((List.mem_singleton.1 hB).symm.trans (List.mem_singleton.1 hA))
      cases r <;> cases r' <;> first | exact distinct rfl | exact absurd same (by decide)
    | _ => cases hB
  | _ => cases hA

theorem apart_of_valid (valid : s.config.validate = .ok ()) (distinct : A ≠ B) : s.Apart A B where
  ints _ := not_mem_owned distinct
  lists _ := not_mem_windows distinct
  locks h := distinct (lockName_injective valid (storeKey_injective h))

end Setup
end BridgeNotifier
