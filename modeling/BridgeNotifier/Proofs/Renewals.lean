import BridgeNotifier.Proofs.Replicas
set_option autoImplicit false

/-!
# Renewals on time

Owners of one lock in real time. The renewals of a lock that is held come when they are due, on
whole milliseconds, and no two of them fail in a row; what else is done to the lock comes at any
time. Then a lease never ends while its owner wants to keep it.
-/
namespace BridgeNotifier
open Surroundings

def StoreCall.lockToken? : StoreCall → Option String
  | tryLock _ token _ | extendLock _ token _ | releaseLock _ token => some token
  | _ => none

section Calls
variable {now : Nat} {m n : Memory} {key token : String}

/-- Between two states of the store nothing was done in the name of a token: a lease that is its own
stays as it is, and none becomes its own. -/
def Spares (now : Nat) (key token : String) (m n : Memory) : Prop :=
  n.leases key = m.leases key ∨ (m.held? now key).map Held.token ≠ some token ∧
    (n.leases key).map Held.token ≠ some token

theorem spares_of_timed {c : StoreCall} {x : Except Error c.Answer}
    (hc : ∀ other ∈ c.lockToken?, other ≠ token) (h : timed now m ⟨.store c, x⟩ n) (key : String) :
    Spares now key token m n := by
  have changed : ∀ {k : String} {v : Option Held}, n.leases = Function.update m.leases k v →
      (m.held? now k).map Held.token ≠ some token → v.map Held.token ≠ some token →
        Spares now key token m n := by
    intro k v hn hm hv
    by_cases hkey : key = k
    · subst hkey
      exact .inr ⟨hm, by rwa [hn, Function.update_self]⟩
    · exact .inl (by rw [hn, Function.update_of_ne hkey _ _])
  obtain same | ⟨k, held, h⟩ := timed_leases h
  · exact .inl (congrFun same key)
  obtain ⟨ttl, he, free, hn⟩ | ⟨lease, ⟨ttl, he, hn⟩ | ⟨he, hn⟩⟩ := h
  · obtain rfl := Request.store.inj (Event.mk.inj he).1
    have ho := hc held rfl
    exact changed hn (by simp [free]) (by simpa [Memory.lease] using ho)
  · obtain rfl := Request.store.inj (Event.mk.inj he).1
    have ho := hc held rfl
    exact changed hn (by simpa [lease] using ho) (by simpa [Memory.lease] using ho)
  · obtain rfl := Request.store.inj (Event.mk.inj he).1
    have ho := hc held rfl
    exact changed hn (by simpa [lease] using ho) (by simp)

theorem timed_failed {c : StoreCall} {err : Error} (h : timed now m ⟨.store c, .error err⟩ n) :
    n = m := by
  obtain h | ⟨-, -, h⟩ := h
  · exact Memory.call_error h
  · exact h

theorem held_of_lt {lease : Held} (hl : m.leases key = some lease) (lt : now < lease.expiry) :
    m.held? now key = some lease := by
  simp [Memory.held?, hl, lt]

theorem held_before {later : Nat} {lease : Held} (le : now ≤ later)
    (h : m.held? later key = some lease) : m.held? now key = some lease := by
  obtain ⟨hl, lt⟩ := Option.filter_eq_some_iff.1 h
  exact held_of_lt hl (Nat.lt_of_le_of_lt le (by simpa using lt))

theorem timed_extended {ttl : Interval} {x : Except Error Bool} {lease : Held}
    (hl : m.held? now key = some lease) (ht : lease.token = token)
    (h : timed now m ⟨.store (.extendLock key token ttl), x⟩ n) :
    x = .ok true ∧ n.leases key = some (Memory.lease now token ttl) ∨
      (∃ err, x = .error err) ∧ n = m := by
  obtain h | ⟨err, rfl, rfl⟩ := h
  · have own : (m.held? now key).map Held.token = some token := by rw [hl, Option.map_some, ht]
    rw [Memory.call_extendLock_own own] at h
    cases h
    exact .inl ⟨rfl, Function.update_self ..⟩
  · exact .inr ⟨⟨err, rfl⟩, rfl⟩

theorem timed_lost {ttl : Interval} {x : Except Error Bool}
    (hl : (m.held? now key).map Held.token ≠ some token)
    (h : timed now m ⟨.store (.extendLock key token ttl), x⟩ n) : x ≠ .ok true ∧ n = m := by
  obtain h | ⟨err, rfl, rfl⟩ := h
  · rw [Memory.call_extendLock_other hl] at h
    cases h
    exact ⟨by simp, rfl⟩
  · exact ⟨by simp, rfl⟩

theorem timed_released {b : Bool}
    (h : timed now m ⟨.store (.releaseLock key token), .ok b⟩ n) :
    (n.held? now key).map Held.token ≠ some token := by
  obtain h | ⟨err, h, -⟩ := h
  · by_cases own : (m.held? now key).map Held.token = some token
    · rw [Memory.call_releaseLock_own own] at h
      cases h
      simp [Memory.held?]
    · rw [Memory.call_releaseLock_other own] at h
      cases h
      exact own
  · cases h

end Calls

/-- Where the renewals of a lease stand: before the first one is planned, waiting until the next one
is due, about to renew, or at their end. -/
inductive Stage where
  | planning
  | waiting (deadline : Nat)
  | due (deadline : Nat)
  | ended
  deriving DecidableEq, Repr

namespace Lease

variable (l : Lease)

def extend (deadline : Nat) : Program Unit := do
  match ← Program.request (.store (.extendLock l.key l.token l.ttl)) with
  | .ok false => return ()
  | _ => Program.loop (.renewal l (deadline + l.period))

def At : Stage → Program Unit → Prop
  | .planning, p => p = l.keep
  | .waiting d, p => p = Program.loop (.renewal l d) ∨ p = l.renew d
  | .due d, p => p = l.extend d
  | .ended, p => p = .done ()

variable {l} {σ : Type} {S : Surroundings σ} {m n : σ} {e : Event} {p q : Program Unit} {d : Nat}

theorem waiting_of_nil (h : (Program.loop (.renewal l d)).Leads S m [] q n) :
    l.At (.waiting d) q ∧ n = m := by
  refine ⟨?_, h.eq_of_nil⟩
  cases h with
  | refl => exact .inl rfl
  | call rest =>
    rw [Program.bind_done] at rest
    cases rest
    exact .inr rfl

theorem planned (hp : l.At .planning p) (h : p.Leads S m [e] q n) :
    ∃ now, e = ⟨.instant, now⟩ ∧ S m e n ∧ l.At (.waiting (now + l.period)) q := by
  obtain rfl := hp
  cases h with
  | ask step rest =>
    obtain ⟨hq, rfl⟩ := waiting_of_nil rest
    exact ⟨_, rfl, step, hq⟩

theorem waited (hp : l.At (.waiting d) p) (h : p.Leads S m [e] q n) :
    ∃ due, e = ⟨.pause d (.lease l), due⟩ ∧ S m e n ∧ l.At (if due then .due d else .ended) q := by
  have renew : ∀ {p : Program Unit}, p.Leads S m [e] q n → p = l.renew d →
      ∃ due, e = ⟨.pause d (.lease l), due⟩ ∧ S m e n ∧ l.At (if due then .due d else .ended) q := by
    rintro p h rfl
    cases h with
    | @ask _ _ due _ _ _ _ _ step rest =>
      cases due with
      | false =>
        cases rest
        exact ⟨false, rfl, step, rfl⟩
      | true =>
        cases rest
        exact ⟨true, rfl, step, rfl⟩
  obtain rfl | rfl := hp
  · cases h with
    | call rest =>
      rw [Program.bind_done] at rest
      exact renew rest rfl
  · exact renew h rfl

theorem leads_due (h : S m ⟨.pause d (.lease l), true⟩ n) :
    (Program.loop (.renewal l d)).Leads S m [⟨.pause d (.lease l), true⟩] (l.extend d) n := by
  refine .call ?_
  rw [Program.bind_done]
  exact .ask h (.refl _ _)

theorem extended (hp : l.At (.due d) p) (h : p.Leads S m [e] q n) :
    ∃ x : Except Error Bool, e = ⟨.store (.extendLock l.key l.token l.ttl), x⟩ ∧ S m e n ∧
      l.At (match x with
        | .ok false => .ended
        | _ => .waiting (d + l.period)) q := by
  obtain rfl := hp
  cases h with
  | @ask _ _ x _ _ _ _ _ step rest =>
    rcases x with err | _ | _
    · obtain ⟨hq, rfl⟩ := waiting_of_nil rest
      exact ⟨_, rfl, step, hq⟩
    · cases rest
      exact ⟨_, rfl, step, rfl⟩
    · obtain ⟨hq, rfl⟩ := waiting_of_nil rest
      exact ⟨_, rfl, step, hq⟩

end Lease

/-- A lock that somebody got, with its renewals. -/
structure Guard where
  lease : Lease
  renewals : Program Unit
  ending : Option (Program Unit)
  released : Bool
  failed : Bool

namespace Guard

def taken (l : Lease) : Guard :=
  ⟨l, l.keep, none, false, false⟩

abbrev Kept (g : Guard) : Prop :=
  g.ending = none

def renewed (g : Guard) (e : Event) (rest : Program Unit) : Guard :=
  { g with
    renewals := rest
    failed := match e with
      | ⟨.store _, .ok _⟩ => false
      | ⟨.store _, .error _⟩ => true
      | _ => g.failed }

def givenUp (g : Guard) (e : Event) (rest : Program Unit) : Guard :=
  { g with
    ending := some rest
    released := match e with
      | ⟨.store (.releaseLock _ _), .ok _⟩ => true
      | _ => g.released }

/-- The timers of renewals: they fire when they are due, or once the lock is let go. -/
def Prompt (g : Guard) (now : Nat) : Event → Prop
  | ⟨.instant, instant⟩ => instant = now
  | ⟨.pause deadline _, true⟩ => Interval.nextMilli deadline ≤ now
  | ⟨.pause _ _, false⟩ => ¬ g.Kept
  | _ => True

end Guard

def Program.WaitsUntil (instant : Nat) : Program Unit → Prop
  | .done _ => True
  | .ask (.pause deadline _) _ | .call (.renewal _ deadline) _ =>
    instant ≤ Interval.nextMilli deadline
  | _ => False

structure Owners where
  now : Nat
  memory : Memory
  guards : List Guard

namespace Owners

inductive Action where
  | acquire (result : Except Error (Option Lease))
  | renew (i : Nat) (e : Event)
  | release (i : Nat)
  | drop (i : Nat)
  | giveUp (i : Nat) (e : Event)
  | other (c : StoreCall)
  | wait

/-- What can happen to the lock of a key. Tokens of strangers are never given to owners, and a token
is given to one owner only. -/
inductive Step (key : String) (stranger : String → Prop) (P : Owners) : Action → Owners → Prop where
  | acquire {ttl : Interval} {es : List Event} {r : Except Error (Option Lease)} {m : Memory}
      (long : 1000000000 ≤ ttl.nanos)
      (run : (Lock.acquire key ttl).run.Leads (timed P.now) P.memory es (.done r) m)
      (new : ∀ l, r = .ok (some l) → ¬ stranger l.token ∧ ∀ g ∈ P.guards, g.lease.token ≠ l.token) :
      Step key stranger P (.acquire r) ⟨P.now, m, P.guards ++ match r with
        | .ok (some l) => [.taken l]
        | _ => []⟩
  | renew {i : Nat} {g : Guard} {e : Event} {q : Program Unit} {m : Memory}
      (hg : P.guards[i]? = some g)
      (run : g.renewals.Leads ((timed P.now).only (g.Prompt P.now)) P.memory [e] q m)
      (fails : e.error?.isSome = true → g.failed = false) :
      Step key stranger P (.renew i e) ⟨P.now, m, P.guards.set i (g.renewed e q)⟩
  | release {i : Nat} {g : Guard} {q : Program Unit} {m : Memory}
      (hg : P.guards[i]? = some g) (kept : g.Kept)
      (run : (Lock.release g.lease).Leads (timed P.now) P.memory [⟨.letGo g.lease, ()⟩] q m) :
      Step key stranger P (.release i) ⟨P.now, m, P.guards.set i { g with ending := some q }⟩
  | drop {i : Nat} {g : Guard} (hg : P.guards[i]? = some g) (kept : g.Kept) :
      Step key stranger P (.drop i)
        ⟨P.now, P.memory, P.guards.set i { g with ending := some g.lease.giveUp }⟩
  | giveUp {i : Nat} {g : Guard} {p : Program Unit} {e : Event} {q : Program Unit} {m : Memory}
      (hg : P.guards[i]? = some g) (begun : g.ending = some p)
      (run : p.Leads (timed P.now) P.memory [e] q m) :
      Step key stranger P (.giveUp i e) ⟨P.now, m, P.guards.set i (g.givenUp e q)⟩
  | other {c : StoreCall} {x : Except Error c.Answer} {m : Memory}
      (strange : ∀ token ∈ c.lockToken?, stranger token) (call : timed P.now P.memory ⟨.store c, x⟩ m) :
      Step key stranger P (.other c) ⟨P.now, m, P.guards⟩
  | wait {now : Nat} (later : P.now ≤ now)
      (onTime : ∀ g ∈ P.guards, g.Kept → g.renewals.WaitsUntil now) :
      Step key stranger P .wait ⟨now, P.memory, P.guards⟩

inductive Reaches (key : String) (stranger : String → Prop) (first : Owners) : Owners → Prop where
  | start : Reaches key stranger first first
  | step {P Q : Owners} {a : Action} (before : Reaches key stranger first P)
      (step : P.Step key stranger a Q) : Reaches key stranger first Q

end Owners

namespace Guard

/-- How long the lease of a kept lock lasts at least, by the stage of its renewals. -/
def Timely (g : Guard) (now expiry : Nat) : Stage → Prop
  | .planning => now + g.lease.ttl.nanos ≤ expiry ∧ g.failed = false
  | .waiting d => now ≤ Interval.nextMilli d ∧
      d + g.lease.ttl.nanos ≤ expiry + (if g.failed then 2 else 1) * g.lease.period
  | .due d => d ≤ now ∧ now ≤ Interval.nextMilli d ∧
      d + g.lease.ttl.nanos ≤ expiry + (if g.failed then 2 else 1) * g.lease.period
  | .ended => False

/-- What is always true of a guard: as long as it is kept, its lease is in the store and lasts until
the renewal after the next one; once it was released, the key is not its own. -/
structure Sound (key : String) (now : Nat) (m : Memory) (g : Guard) : Prop where
  key_eq : g.lease.key = key
  long : 1000000000 ≤ g.lease.ttl.nanos
  timely : ∃ st, g.lease.At st g.renewals ∧ (g.Kept → ∃ h, m.leases key = some h ∧
    h.token = g.lease.token ∧ g.Timely now h.expiry st)
  ending : ∀ p, g.ending = some p → p = g.lease.giveUp ∨ p = .done ()
  lapsed : g.released = true → (m.held? now key).map Held.token ≠ some g.lease.token

variable {key : String} {now : Nat} {m n : Memory} {g : Guard} {e : Event} {q : Program Unit}

theorem period_eq {l : Lease} (long : 1000000000 ≤ l.ttl.nanos) : l.period = l.ttl.nanos / 3 := by
  unfold Lease.period
  omega

theorem Timely.lt {expiry : Nat} {st : Stage} (long : 1000000000 ≤ g.lease.ttl.nanos)
    (h : g.Timely now expiry st) : now < expiry := by
  have period := period_eq long
  cases st with
  | planning => exact Nat.lt_of_lt_of_le (by omega) h.1
  | waiting d =>
    obtain ⟨hd, hlasts⟩ := h
    have := Interval.nextMilli_lt d
    rw [period] at hlasts
    split at hlasts <;> omega
  | due d =>
    obtain ⟨-, hd, hlasts⟩ := h
    have := Interval.nextMilli_lt d
    rw [period] at hlasts
    split at hlasts <;> omega
  | ended => exact h.elim

theorem Timely.planned {expiry : Nat} (long : 1000000000 ≤ g.lease.ttl.nanos)
    (h : g.Timely now expiry .planning) :
    (g.renewed ⟨.instant, now⟩ q).Timely now expiry (.waiting (now + g.lease.period)) := by
  have period := period_eq long
  have le := Interval.le_nextMilli (now + g.lease.period)
  obtain ⟨lasts, ok⟩ := h
  refine ⟨Nat.le_trans (Nat.le_add_right _ _) le, ?_⟩
  have failed : (g.renewed ⟨.instant, now⟩ q).failed = false := ok
  rw [failed]
  dsimp only [Guard.renewed]
  simp only [Bool.false_eq_true, if_false, Nat.one_mul]
  omega

section Due
variable {d expiry : Nat} (long : 1000000000 ≤ g.lease.ttl.nanos)
variable (h : g.Timely now expiry (.due d))
include long h

theorem Timely.extended :
    (g.renewed ⟨.store (.extendLock g.lease.key g.lease.token g.lease.ttl), .ok true⟩ q).Timely now
      (Memory.lease now g.lease.token g.lease.ttl).expiry (.waiting (d + g.lease.period)) := by
  have period := period_eq long
  -- The deadline after this one is at least a third of the ttl ahead.
  have le := Interval.le_nextMilli (d + g.lease.period)
  have lt := Interval.nextMilli_lt d
  obtain ⟨ago, hd, -⟩ := h
  dsimp only [Timely, Guard.renewed, Memory.lease]
  simp only [Bool.false_eq_true, if_false, Nat.one_mul]
  omega

theorem Timely.missed (once : g.failed = false) {err : Error} :
    (g.renewed ⟨.store (.extendLock g.lease.key g.lease.token g.lease.ttl), .error err⟩ q).Timely
      now expiry (.waiting (d + g.lease.period)) := by
  have period := period_eq long
  have le := Interval.le_nextMilli (d + g.lease.period)
  have lt := Interval.nextMilli_lt d
  obtain ⟨ago, hd, lasts⟩ := h
  rw [once] at lasts
  dsimp only [Timely, Guard.renewed]
  simp only [Bool.false_eq_true, if_false, if_true, Nat.one_mul] at lasts ⊢
  omega

end Due

theorem Sound.held (h : g.Sound key now m) (kept : g.Kept) :
    (m.held? now key).map Held.token = some g.lease.token := by
  obtain ⟨st, -, timely⟩ := h.timely
  obtain ⟨lease, hl, token, timely⟩ := timely kept
  rw [held_of_lt hl (timely.lt h.long), Option.map_some, token]

theorem Sound.other (h : g.Sound key now m) (spared : Spares now key g.lease.token m n) :
    g.Sound key now n := by
  obtain ⟨st, stage, timely⟩ := h.timely
  refine ⟨h.key_eq, h.long, ⟨st, stage, fun kept => ?_⟩, h.ending, fun released => ?_⟩
  · -- A kept lease is not over, so nobody else can have replaced it.
    obtain same | ⟨lost, -⟩ := spared
    · rw [same]
      exact timely kept
    · exact absurd (h.held kept) lost
  · intro held
    obtain ⟨lease, hl, ht⟩ := Option.map_eq_some_iff.1 held
    obtain same | ⟨-, lost⟩ := spared
    · refine h.lapsed released ?_
      rwa [Memory.held?, same] at held
    · rw [(Option.filter_eq_some_iff.1 hl).1, Option.map_some, ht] at lost
      exact lost rfl

theorem sound_taken {l : Lease} (hk : l.key = key) (long : 1000000000 ≤ l.ttl.nanos)
    (hm : m.leases key = some (Memory.lease now l.token l.ttl)) :
    (taken l).Sound key now m := by
  refine ⟨hk, long, ⟨.planning, rfl, fun _ => ⟨_, hm, rfl, ?_, rfl⟩⟩, nofun, nofun⟩
  exact Nat.add_le_add_left (Nat.le_max_left _ _) now

theorem Sound.wait (h : g.Sound key now m) {later : Nat} (le : now ≤ later)
    (onTime : g.Kept → g.renewals.WaitsUntil later) : g.Sound key later m := by
  obtain ⟨st, stage, timely⟩ := h.timely
  refine ⟨h.key_eq, h.long, ⟨st, stage, fun kept => ?_⟩, h.ending, fun released held => ?_⟩
  · obtain ⟨l, hl, ht, timely⟩ := timely kept
    refine ⟨l, hl, ht, ?_⟩
    have waits := onTime kept
    cases st with
    | planning =>
      rw [show g.renewals = _ from stage] at waits
      exact waits.elim
    | waiting d =>
      refine ⟨?_, timely.2⟩
      obtain hp | hp := stage
      · rw [hp] at waits
        exact waits
      · rw [hp] at waits
        exact waits
    | due d =>
      rw [show g.renewals = _ from stage] at waits
      exact waits.elim
    | ended => exact timely
  · obtain ⟨l, hl, ht⟩ := Option.map_eq_some_iff.1 held
    exact h.lapsed released (by rw [held_before le hl, Option.map_some, ht])

def Own (g : Guard) (now : Nat) (m n : Memory) : Prop :=
  n = m ∨ ∃ c x, c.lockToken? = some g.lease.token ∧ timed now m ⟨.store c, x⟩ n

theorem Own.spares (h : g.Own now m n) {token : String} (ne : g.lease.token ≠ token) :
    Spares now key token m n := by
  obtain rfl | ⟨c, x, hc, h⟩ := h
  · exact .inl rfl
  · refine spares_of_timed (fun other ho => ?_) h key
    obtain rfl : g.lease.token = other := Option.some.inj (hc.symm.trans ho)
    exact ne

theorem Sound.renewed (h : g.Sound key now m)
    (run : g.renewals.Leads ((timed now).only (g.Prompt now)) m [e] q n)
    (fails : e.error?.isSome = true → g.failed = false) :
    (g.renewed e q).Sound key now n ∧ g.Own now m n := by
  have long := h.long
  obtain ⟨st, stage, timely⟩ := h.timely
  cases st with
  | planning =>
    obtain ⟨now, rfl, ⟨prompt, step⟩, hq⟩ := Lease.planned stage run
    obtain rfl := prompt
    obtain rfl := step
    refine ⟨⟨h.key_eq, long, ⟨_, hq, fun kept => ?_⟩, h.ending, h.lapsed⟩, .inl rfl⟩
    obtain ⟨l, hl, ht, timely⟩ := timely kept
    exact ⟨l, hl, ht, timely.planned long⟩
  | waiting d =>
    obtain ⟨due, rfl, ⟨prompt, step⟩, hq⟩ := Lease.waited stage run
    obtain rfl := step
    refine ⟨⟨h.key_eq, long, ⟨_, hq, fun kept => ?_⟩, h.ending, h.lapsed⟩, .inl rfl⟩
    obtain ⟨l, hl, ht, hd, lasts⟩ := timely kept
    cases due with
    | false => exact absurd kept prompt
    | true => exact ⟨l, hl, ht, Nat.le_trans (Interval.le_nextMilli d) prompt, hd, lasts⟩
  | due d =>
    obtain ⟨x, rfl, ⟨-, step⟩, hq⟩ := Lease.extended stage run
    refine ⟨⟨h.key_eq, long, ⟨_, hq, fun kept => ?_⟩, h.ending, fun released => ?_⟩,
      .inr ⟨.extendLock _ _ _, x, rfl, step⟩⟩
    · obtain ⟨l, hl, ht, lasts⟩ := timely kept
      have held : m.held? now g.lease.key = some l := h.key_eq ▸ held_of_lt hl (lasts.lt long)
      obtain ⟨rfl, hn⟩ | ⟨⟨err, rfl⟩, rfl⟩ := timed_extended held ht step
      · exact ⟨_, h.key_eq ▸ hn, rfl, lasts.extended long⟩
      · exact ⟨l, hl, ht, lasts.missed long (fails rfl)⟩
    · obtain ⟨-, rfl⟩ := timed_lost (h.key_eq ▸ h.lapsed released) step
      exact h.lapsed released
  | ended =>
    rw [show g.renewals = .done () from stage] at run
    cases run

theorem Sound.stays (h : g.Sound key now m) (released : g.released = true)
    (run : g.renewals.Leads ((timed now).only (g.Prompt now)) m [e] q n) :
    n = m ∧ ∀ key token ttl, e ≠ ⟨.store (.extendLock key token ttl), .ok true⟩ := by
  obtain ⟨st, stage, -⟩ := h.timely
  cases st with
  | planning =>
    obtain ⟨now, rfl, ⟨-, step⟩, -⟩ := Lease.planned stage run
    exact ⟨step, nofun⟩
  | waiting d =>
    obtain ⟨due, rfl, ⟨-, step⟩, -⟩ := Lease.waited stage run
    exact ⟨step, nofun⟩
  | due d =>
    obtain ⟨x, rfl, ⟨-, step⟩, -⟩ := Lease.extended stage run
    obtain ⟨lost, rfl⟩ := timed_lost (h.key_eq ▸ h.lapsed released) step
    refine ⟨rfl, fun key token ttl he => ?_⟩
    cases he
    exact lost rfl
  | ended =>
    rw [show g.renewals = .done () from stage] at run
    cases run

theorem Sound.ended (h : g.Sound key now m) :
    ({ g with ending := some g.lease.giveUp }).Sound key now m := by
  obtain ⟨st, stage, -⟩ := h.timely
  refine ⟨h.key_eq, h.long, ⟨st, stage, nofun⟩, fun p hp => .inl (Option.some.inj hp).symm, h.lapsed⟩

theorem Sound.givenUp (h : g.Sound key now m) {p : Program Unit} (begun : g.ending = some p)
    (run : p.Leads (timed now) m [e] q n) :
    (g.givenUp e q).Sound key now n ∧ g.Own now m n := by
  obtain rfl | rfl := h.ending p begun
  · obtain ⟨st, stage, -⟩ := h.timely
    cases run with
    | @ask _ _ x _ _ _ _ _ step rest =>
      cases rest
      refine ⟨⟨h.key_eq, h.long, ⟨st, stage, nofun⟩, fun p hp => .inr (Option.some.inj hp).symm,
        fun released => ?_⟩, .inr ⟨.releaseLock _ _, x, rfl, step⟩⟩
      cases x with
      | ok b => exact h.key_eq ▸ timed_released step
      | error err =>
        obtain rfl := timed_failed step
        exact h.lapsed released
  · cases run

end Guard

namespace Lock

theorem acquired {key : String} {ttl : Interval} {now : Nat} {m n : Memory} {es : List Event}
    {r : Except Error (Option Lease)}
    (run : (Lock.acquire key ttl).run.Leads (timed now) m es (.done r) n) :
    (∃ token, r = .ok (some ⟨key, token, ttl⟩) ∧
        timed now m ⟨.store (.tryLock key token ttl), .ok true⟩ n) ∨
      (r = .ok none ∨ ∃ err, r = .error err) ∧ n = m := by
  cases run with
  | @ask _ _ token _ _ _ _ _ step run =>
    obtain rfl := step
    cases run with
    | @ask _ _ x _ _ _ _ _ step run =>
      rcases x with err | _ | _
      · cases run
        exact .inr ⟨.inr ⟨err, rfl⟩, timed_refused (by simp) step⟩
      · cases run
        exact .inr ⟨.inl rfl, timed_refused (by simp) step⟩
      · cases run with
        | ask hold run =>
          cases run
          obtain rfl := hold
          exact .inl ⟨token, rfl, step⟩

end Lock

namespace Owners

/-- What is always true of owners: all their guards are sound, and no two have a token in common. -/
structure Sound (key : String) (stranger : String → Prop) (P : Owners) : Prop where
  guards : ∀ g ∈ P.guards, Guard.Sound key P.now P.memory g
  own : ∀ g ∈ P.guards, ¬ stranger g.lease.token
  apart : (P.guards.map fun g => g.lease.token).Nodup

variable {key : String} {stranger : String → Prop} {P Q : Owners} {a : Action}

theorem Sound.set (h : P.Sound key stranger) {i : Nat} {g g' : Guard} {m : Memory}
    (hg : P.guards[i]? = some g) (same : g'.lease = g.lease) (sound : g'.Sound key P.now m)
    (own : g.Own P.now P.memory m) : (Owners.mk P.now m (P.guards.set i g')).Sound key stranger := by
  have hi : i < P.guards.length := (List.getElem?_eq_some_iff.1 hg).1
  have kept : ∀ j u, (P.guards.set i g')[j]? = some u →
      i = j ∧ u = g' ∨ i ≠ j ∧ P.guards[j]? = some u := by
    intro j u hu
    rw [List.getElem?_set] at hu
    split at hu
    · rename_i hij
      exact .inl ⟨hij, (Option.some.inj hu).symm⟩
    · rename_i hij
      exact .inr ⟨hij, hu⟩
  refine ⟨fun u hu => ?_, fun u hu => ?_, ?_⟩
  · obtain ⟨j, hu⟩ := List.mem_iff_getElem?.1 hu
    obtain ⟨-, rfl⟩ | ⟨hij, hu⟩ := kept j u hu
    · exact sound
    · -- The other guards have other tokens.
      refine (h.guards u (List.mem_of_getElem? hu)).other (own.spares fun eq => hij ?_)
      refine (List.getElem?_inj (by rwa [List.length_map]) h.apart).1 ?_
      rw [List.getElem?_map, List.getElem?_map, hg, hu, Option.map_some, Option.map_some, eq]
  · obtain ⟨j, hu⟩ := List.mem_iff_getElem?.1 hu
    obtain ⟨-, rfl⟩ | ⟨-, hu⟩ := kept j u hu
    · exact same ▸ h.own g (List.mem_of_getElem? hg)
    · exact h.own u (List.mem_of_getElem? hu)
  · obtain ⟨_, rfl⟩ := List.getElem?_eq_some_iff.1 hg
    have token : (P.guards.map fun g => g.lease.token)[i]? = some g'.lease.token := by
      rw [List.getElem?_map, hg, Option.map_some, same]
    obtain ⟨_, token⟩ := List.getElem?_eq_some_iff.1 token
    rw [List.map_set, ← token, List.set_getElem_self]
    exact h.apart

theorem Sound.step (h : P.Sound key stranger) (step : P.Step key stranger a Q) :
    Q.Sound key stranger := by
  cases step with
  | @acquire ttl es r m long run new =>
    obtain ⟨token, rfl, taken⟩ | ⟨rfl | ⟨err, rfl⟩, rfl⟩ := Lock.acquired run
    · obtain ⟨strange, apart⟩ := new _ rfl
      obtain ⟨-, rfl⟩ := timed_taken taken
      refine ⟨fun g hg => ?_, fun g hg => ?_, ?_⟩
      · obtain hg | hg := List.mem_append.1 hg
        · refine (h.guards g hg).other (spares_of_timed (fun other ho => ?_) taken key)
          obtain rfl : token = other := Option.some.inj ho
          exact (apart g hg).symm
        · obtain rfl := List.mem_singleton.1 hg
          exact Guard.sound_taken rfl long (Function.update_self ..)
      · obtain hg | hg := List.mem_append.1 hg
        · exact h.own g hg
        · obtain rfl := List.mem_singleton.1 hg
          exact strange
      · rw [List.map_append, List.nodup_append]
        refine ⟨h.apart, by simp, fun t ht u hu => ?_⟩
        obtain ⟨g, hg, rfl⟩ := List.mem_map.1 ht
        obtain rfl := List.mem_singleton.1 hu
        exact apart g hg
    · simpa using h
    · simpa using h
  | renew hg run fails =>
    obtain ⟨sound, own⟩ := (h.guards _ (List.mem_of_getElem? hg)).renewed run fails
    exact h.set hg rfl sound own
  | @release i g q m hg kept run =>
    cases run with
    | ask step rest =>
      obtain rfl := step
      cases rest
      exact h.set hg rfl (h.guards g (List.mem_of_getElem? hg)).ended (.inl rfl)
  | drop hg kept => exact h.set hg rfl (h.guards _ (List.mem_of_getElem? hg)).ended (.inl rfl)
  | giveUp hg begun run =>
    obtain ⟨sound, own⟩ := (h.guards _ (List.mem_of_getElem? hg)).givenUp begun run
    exact h.set hg rfl sound own
  | @other c x m strange call =>
    refine ⟨fun g hg => ?_, h.own, h.apart⟩
    have ne : ∀ token ∈ c.lockToken?, token ≠ g.lease.token := fun token ht eq =>
      h.own g hg (eq ▸ strange token ht)
    exact (h.guards g hg).other (spares_of_timed ne call key)
  | wait later onTime =>
    exact ⟨fun g hg => (h.guards g hg).wait later (onTime g hg), h.own, h.apart⟩

theorem Reaches.sound {now : Nat} {m : Memory} (run : Reaches key stranger ⟨now, m, []⟩ P) :
    P.Sound key stranger := by
  induction run with
  | start => exact ⟨nofun, nofun, List.nodup_nil⟩
  | step _ step ih => exact ih.step step

structure Exclusive (key : String) (stranger : String → Prop) (P : Owners) : Prop where
  /-- The key is its guard's own until the guard is released or dropped. -/
  held : ∀ g ∈ P.guards, g.Kept → (P.memory.held? P.now key).map Held.token = some g.lease.token
  /-- It is at every instant of the time that passes next. -/
  waiting : ∀ Q, P.Step key stranger .wait Q → ∀ instant, P.now ≤ instant → instant ≤ Q.now →
    ∀ g ∈ P.guards, g.Kept → (P.memory.held? instant key).map Held.token = some g.lease.token
  /-- As long as there is such a guard, nobody else gets the lock. -/
  refused : (∃ g ∈ P.guards, g.Kept) → ∀ r Q, P.Step key stranger (.acquire r) Q →
    r = .ok none ∨ ∃ err, r = .error err
  /-- After its release a guard neither takes the key nor extends its lease. -/
  stays : ∀ i g, P.guards[i]? = some g → g.released = true →
    ∀ e Q, P.Step key stranger (.renew i e) Q → Q.memory = P.memory ∧
      ∀ key token ttl, e ≠ ⟨.store (.extendLock key token ttl), .ok true⟩

theorem Sound.exclusive (h : P.Sound key stranger) : P.Exclusive key stranger := by
  refine ⟨fun g hg kept => (h.guards g hg).held kept, fun Q step instant le ge g hg kept => ?_,
    fun ⟨g, hg, kept⟩ r Q step => ?_, fun i g hg released e Q step => ?_⟩
  · cases step with
    | wait later onTime =>
      have held := ((h.guards g hg).wait later (onTime g hg)).held kept
      obtain ⟨lease, hl, ht⟩ := Option.map_eq_some_iff.1 held
      rw [held_before ge hl, Option.map_some, ht]
  · cases step with
    | acquire long run new =>
      obtain ⟨token, rfl, taken⟩ | ⟨refused, -⟩ := Lock.acquired run
      · have held := (h.guards g hg).held kept
        rw [(timed_taken taken).1] at held
        cases held
      · exact refused
  · cases step with
    | renew hg' run fails =>
      obtain rfl := Option.some.inj (hg.symm.trans hg')
      exact (h.guards g (List.mem_of_getElem? hg)).stays released run

/-- However the owners of a lock and everybody else go on, a lock that somebody got and keeps is his
alone, if the renewals come when they are due and no two of them fail in a row. -/
theorem exclusive_of_reaches {now : Nat} {m : Memory}
    (run : Reaches key stranger ⟨now, m, []⟩ P) : P.Exclusive key stranger :=
  run.sound.exclusive

theorem Reaches.next {first : Owners} (run : Reaches key stranger first P) (R : Owners)
    (step : P.Step key stranger a Q) (same : Q = R) : Reaches key stranger first R :=
  same ▸ run.step step

def threeSeconds (token : String) : Lease :=
  ⟨"l1", token, .ofSecs 3⟩

def between (l : Lease) (deadline : Nat) (failed : Bool) : Guard :=
  ⟨l, .loop (.renewal l deadline), none, false, failed⟩

def due (l : Lease) (deadline : Nat) (failed : Bool) : Guard :=
  ⟨l, l.extend deadline, none, false, failed⟩

theorem waitsUntil_between {l : Lease} {deadline : Nat} {failed : Bool} :
    ∀ g ∈ [between l deadline failed], g.Kept → g.renewals.WaitsUntil deadline := by
  rintro g hg -
  obtain rfl := List.mem_singleton.1 hg
  exact Interval.le_nextMilli deadline

/-- A lock is kept over a renewal that fails, then released while the next renewal is due, and taken
by somebody else. -/
theorem exclusive_of_reaches_failedRenewal : ∃ P g g', P.Exclusive "l1" (· = "stranger") ∧
    Reaches "l1" (· = "stranger") ⟨0, .empty, []⟩ P ∧ P.guards = [g, g'] ∧ g.released = true ∧
    g'.Kept ∧ (P.memory.held? P.now "l1").map Held.token = some g'.lease.token := by
  let taken := (Memory.empty.call 0 (.tryLock "l1" "a" (.ofSecs 3))).2
  let extended := (taken.call 2000000000 (.extendLock "l1" "a" (.ofSecs 3))).2
  let free := (extended.call 3000000000 (.releaseLock "l1" "a")).2
  let again := (free.call 3000000000 (.tryLock "l1" "b" (.ofSecs 3))).2
  have got : ∀ now m n token, timed now m ⟨.store (.tryLock "l1" token (.ofSecs 3)), .ok true⟩ n →
      (Lock.acquire "l1" (.ofSecs 3)).run.Leads (timed now) m
        [⟨.token, token⟩, ⟨.store (.tryLock "l1" token (.ofSecs 3)), .ok true⟩,
          ⟨.hold (threeSeconds token), ()⟩] (.done (.ok (some (threeSeconds token)))) n :=
    fun now m n token h => .ask rfl (.ask h (.ask rfl (.refl _ _)))
  have s0 : Reaches "l1" (· = "stranger") ⟨0, .empty, []⟩ ⟨0, .empty, []⟩ := .start
  have s1 := s0.next ⟨0, taken, [.taken (threeSeconds "a")]⟩
    (.acquire (by decide) (got _ _ _ "a" (.inl rfl)) fun l hl => by
      cases hl
      exact ⟨by decide, by simp⟩) rfl
  have s2 := s1.next ⟨0, taken, [between (threeSeconds "a") 1000000000 false]⟩
    (.renew (i := 0) (e := ⟨.instant, (0 : Nat)⟩) rfl (.ask ⟨rfl, rfl⟩ (.refl _ _)) nofun) rfl
  have s3 := s2.next ⟨0, taken, [between (threeSeconds "a") 1000000000 false]⟩
    (.other (c := .tryLock "l1" "stranger" (.ofSecs 3)) (x := .ok false)
      (fun token h => (Option.some.inj h).symm) (.inl rfl)) rfl
  have s4 := s3.next ⟨1000000000, taken, [between (threeSeconds "a") 1000000000 false]⟩
    (.wait (by decide) waitsUntil_between) rfl
  have s5 := s4.next ⟨1000000000, taken, [due (threeSeconds "a") 1000000000 false]⟩
    (.renew (i := 0) (e := ⟨.pause _ _, true⟩) rfl
      (Lease.leads_due ⟨(by decide : Interval.nextMilli 1000000000 ≤ 1000000000), rfl⟩) nofun) rfl
  have s6 := s5.next ⟨1000000000, taken, [between (threeSeconds "a") 2000000000 true]⟩
    (.renew (i := 0) (e := ⟨.store (.extendLock _ _ _), .error ⟨.keyValue, "unreachable"⟩⟩) rfl
      (.ask ⟨trivial, .inr ⟨_, rfl, rfl⟩⟩ (.refl _ _)) fun _ => rfl) rfl
  have s7 := s6.next ⟨2000000000, taken, [between (threeSeconds "a") 2000000000 true]⟩
    (.wait (by decide) waitsUntil_between) rfl
  have s8 := s7.next ⟨2000000000, taken, [due (threeSeconds "a") 2000000000 true]⟩
    (.renew (i := 0) (e := ⟨.pause _ _, true⟩) rfl
      (Lease.leads_due ⟨(by decide : Interval.nextMilli 2000000000 ≤ 2000000000), rfl⟩) nofun) rfl
  have s9 := s8.next ⟨2000000000, extended, [between (threeSeconds "a") 3000000000 false]⟩
    (.renew (i := 0) (e := ⟨.store (.extendLock _ _ _), .ok true⟩) rfl
      (.ask ⟨trivial, .inl rfl⟩ (.refl _ _)) nofun) rfl
  have s10 := s9.next ⟨3000000000, extended, [between (threeSeconds "a") 3000000000 false]⟩
    (.wait (by decide) waitsUntil_between) rfl
  have s11 := s10.next ⟨3000000000, extended, [due (threeSeconds "a") 3000000000 false]⟩
    (.renew (i := 0) (e := ⟨.pause _ _, true⟩) rfl
      (Lease.leads_due ⟨(by decide : Interval.nextMilli 3000000000 ≤ 3000000000), rfl⟩) nofun) rfl
  have s12 := s11.next ⟨3000000000, extended,
      [{ due (threeSeconds "a") 3000000000 false with ending := some (threeSeconds "a").giveUp }]⟩
    (.release (i := 0) rfl rfl (.ask rfl (.refl _ _))) rfl
  have s13 := s12.next ⟨3000000000, free,
      [{ due (threeSeconds "a") 3000000000 false with ending := some (.done ()), released := true }]⟩
    (.giveUp (i := 0) (e := ⟨.store (.releaseLock _ _), .ok true⟩) rfl rfl
      (.ask (.inl rfl) (.refl _ _))) rfl
  have s14 := s13.next ⟨3000000000, again,
      [{ due (threeSeconds "a") 3000000000 false with ending := some (.done ()), released := true },
        .taken (threeSeconds "b")]⟩
    (.acquire (by decide) (got _ _ _ "b" (.inl rfl)) fun l hl => by
      cases hl
      exact ⟨by decide, by simp [due, threeSeconds]⟩) rfl
  exact ⟨_, _, _, exclusive_of_reaches s14, s14, rfl, rfl, rfl, rfl⟩

end Owners
end BridgeNotifier
