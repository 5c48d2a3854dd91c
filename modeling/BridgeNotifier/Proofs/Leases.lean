import BridgeNotifier.Proofs.Renewals
import BridgeNotifier.Proofs.StoreAgreement
import BridgeNotifier.Store.Memory
set_option autoImplicit false

/-!
# Leases and their history

Calls of a store in memory one after another, while the clock goes on and the store is cut off and
comes back. Who holds a key, and until when, follows from the calls that were made on it and their
answers.
-/
namespace BridgeNotifier

structure Entry where
  instant : Nat
  call : StoreCall
  answer : Except Error call.Answer

namespace Entry

variable (key token : String)

def acquired? : Entry → Option String
  | ⟨_, .tryLock k x _, .ok true⟩ => if k = key then some x else none
  | _ => none

def releases : Entry → Bool
  | ⟨_, .releaseLock k x, .ok true⟩ => k = key ∧ x = token
  | _ => false

/-- The end of the term for which the token got the key or keeps it: the ttl later, which counts as
one millisecond at least. -/
def term? : Entry → Option Nat
  | ⟨now, .tryLock k x ttl, .ok true⟩ | ⟨now, .extendLock k x ttl, .ok true⟩ =>
    if k = key ∧ x = token then some (now + max ttl.nanos 1000000) else none
  | _ => none

end Entry

/-- The token got the key once, and has not given it up since. The latest entry comes first. -/
def Unreleased (key token : String) (entries : List Entry) : Prop :=
  ∃ newer e older, entries = newer ++ e :: older ∧ e.acquired? key = some token ∧
    ∀ e' ∈ newer, e'.releases key token = false

/-- A store with the clock, and the calls so far, the latest first. -/
structure Register where
  store : FaultyStore
  now : Nat
  entries : List Entry

namespace Register

inductive Act where
  | pass (nanos : Nat)
  | cutOff (unavailable : Bool)
  | sweep
  | call (c : StoreCall)

def empty : Register :=
  ⟨.empty, 0, []⟩

variable (r : Register)

def answer (c : StoreCall) : Option (Except Error c.Answer) :=
  if r.store.breaksOff r.now c then none else some (r.store.call r.now c).1

def next : Act → Register
  | .pass nanos => { r with now := r.now + nanos }
  | .cutOff unavailable => { r with store := { r.store with unavailable := unavailable } }
  | .sweep => { r with store :=
      { r.store with memory := { r.store.memory with leases := r.store.memory.held? r.now } } }
  | .call c =>
    match r.answer c with
    | none => r
    | some x => ⟨(r.store.call r.now c).2, r.now, ⟨r.now, c, x⟩ :: r.entries⟩

def run (acts : List Act) : Register :=
  acts.foldl next r

def held? (key : String) : Option Held :=
  r.store.memory.held? r.now key

def holder? (key : String) : Option String :=
  (r.held? key).map Held.token

/-- A lease that is taken or extended now ends at an instant that can be told. -/
def Tells (ttl : Interval) : Prop :=
  r.now + max ttl.nanos 1000000 < Memory.horizon

instance (ttl : Interval) : Decidable (r.Tells ttl) :=
  inferInstanceAs (Decidable (_ < _))

end Register

section Entries
variable {key token : String} {entries : List Entry} {e : Entry}

theorem unreleased_cons : Unreleased key token (e :: entries) ↔
    e.acquired? key = some token ∨ e.releases key token = false ∧ Unreleased key token entries := by
  constructor
  · rintro ⟨newer, e', older, split, got, kept⟩
    cases newer with
    | nil =>
      cases split
      exact .inl got
    | cons first newer =>
      cases split
      obtain ⟨first, rest⟩ := List.forall_mem_cons.1 kept
      exact .inr ⟨first, newer, e', older, rfl, got, rest⟩
  · rintro (got | ⟨first, newer, e', older, rfl, got, rest⟩)
    · exact ⟨[], e, entries, rfl, got, by simp⟩
    · exact ⟨e :: newer, e', older, rfl, got, List.forall_mem_cons.2 ⟨first, rest⟩⟩

structure Entry.Silent (e : Entry) (key : String) : Prop where
  acquired : e.acquired? key = none
  releases : ∀ token, e.releases key token = false
  term : ∀ token, e.term? key token = none

end Entries

inductive Changes (now : Nat) (key : String) (m n : Memory) : Entry → Prop where
  | none {e : Entry} (silent : e.Silent key) (same : n.leases key = m.leases key) :
      Changes now key m n e
  | taken (token : String) (ttl : Interval) (free : m.held? now key = Option.none)
      (lease : n.leases key = some (Memory.lease now token ttl)) :
      Changes now key m n ⟨now, .tryLock key token ttl, .ok true⟩
  | extended (token : String) (ttl : Interval)
      (own : (m.held? now key).map Held.token = some token)
      (lease : n.leases key = some (Memory.lease now token ttl)) :
      Changes now key m n ⟨now, .extendLock key token ttl, .ok true⟩
  | released (token : String) (own : (m.held? now key).map Held.token = some token)
      (lease : n.leases key = Option.none) :
      Changes now key m n ⟨now, .releaseLock key token, .ok true⟩

section Changes
variable {now : Nat} {key : String} {m n : Memory}

theorem Entry.silent_of_ne {e : Entry} (h : e.call.key ≠ key) : e.Silent key := by
  obtain ⟨now, c, x⟩ := e
  cases c with
  | tryLock k token ttl | extendLock k token ttl | releaseLock k token =>
    change k ≠ key at h
    rcases x with err | _ | _ <;> constructor <;> simp [acquired?, releases, term?, h]
  | _ => cases x <;> exact ⟨rfl, fun _ => rfl, fun _ => rfl⟩

theorem Entry.silent_of_error {now : Nat} {c : StoreCall} {err : Error} :
    (Entry.mk now c (.error err)).Silent key := by
  cases c <;> exact ⟨rfl, fun _ => rfl, fun _ => rfl⟩

theorem Memory.changes (now : Nat) (key : String) (m : Memory) (c : StoreCall) :
    Changes now key m (m.call now c).2 ⟨now, c, (m.call now c).1⟩ := by
  by_cases own : c.key = key
  · cases c with
    | tryLock k token ttl =>
      obtain rfl : k = key := own
      cases free : m.held? now k with
      | none =>
        rw [call_tryLock_free free]
        exact .taken token ttl free (Function.update_self ..)
      | some lease =>
        rw [call_tryLock_held free]
        exact .none ⟨rfl, fun _ => rfl, fun _ => rfl⟩ rfl
    | extendLock k token ttl =>
      obtain rfl : k = key := own
      by_cases mine : (m.held? now k).map Held.token = some token
      · rw [call_extendLock_own mine]
        exact .extended token ttl mine (Function.update_self ..)
      · rw [call_extendLock_other mine]
        exact .none ⟨rfl, fun _ => rfl, fun _ => rfl⟩ rfl
    | releaseLock k token =>
      obtain rfl : k = key := own
      by_cases mine : (m.held? now k).map Held.token = some token
      · rw [call_releaseLock_own mine]
        exact .released token mine (Function.update_self ..)
      · rw [call_releaseLock_other mine]
        exact .none ⟨rfl, fun _ => rfl, fun _ => rfl⟩ rfl
    | popOldest k =>
      simp only [call]
      split <;> exact .none ⟨rfl, fun _ => rfl, fun _ => rfl⟩ rfl
    | getInt k | setInt k v | push k v | length k =>
      exact .none ⟨rfl, fun _ => rfl, fun _ => rfl⟩ rfl
  · exact .none (Entry.silent_of_ne own) (call_of_ne now m (Ne.symm own)).1

theorem FaultyStore.call_of_allowed {s : FaultyStore} {c : StoreCall}
    (allowed : s.refusedKey? c = none) (now : Nat) :
    s.call now c = if s.unavailable then (.error FaultyStore.cutOff, s)
      else ((s.memory.call now c).1, { s with memory := (s.memory.call now c).2 }) := by
  simp only [FaultyStore.call, allowed]

theorem FaultyStore.allowed_of_nil {s : FaultyStore} (unrefused : s.refused = []) (c : StoreCall) :
    s.refusedKey? c = none := by
  cases c <;> simp [FaultyStore.refusedKey?, unrefused]

theorem FaultyStore.changes (now : Nat) (key : String) (s : FaultyStore) (c : StoreCall) :
    Changes now key s.memory (s.call now c).2.memory ⟨now, c, (s.call now c).1⟩ := by
  unfold call
  split
  · exact .none Entry.silent_of_error rfl
  · split
    · exact .none Entry.silent_of_error rfl
    · exact s.memory.changes now key c

end Changes

/-- A key is held by a token until an instant if and only if the entries say so. -/
def Told (key : String) (now : Nat) (m : Memory) (entries : List Entry) : Prop :=
  ∀ token ends, m.held? now key = some ⟨token, ends⟩ ↔
    Unreleased key token entries ∧
      entries.findSome? (Entry.term? key token) = some ends ∧ now < ends

section Told
variable {key : String} {now : Nat} {m n : Memory} {entries : List Entry} {e : Entry}

theorem held_iff {lease : Held} :
    m.held? now key = some lease ↔ m.leases key = some lease ∧ now < lease.expiry := by
  rw [Memory.held?, Option.filter_eq_some_iff, decide_eq_true_iff]

theorem held_of_same (same : n.leases key = m.leases key) : n.held? now key = m.held? now key := by
  simp only [Memory.held?, same]

theorem held_of_lease_now {token : String} {ttl : Interval}
    (lease : n.leases key = some (Memory.lease now token ttl)) :
    n.held? now key = some ⟨token, now + max ttl.nanos 1000000⟩ := by
  have longer : 0 < max ttl.nanos 1000000 := by omega
  exact held_of_lt lease (Nat.lt_add_of_pos_right longer)

theorem Told.stranger (h : Told key now m entries) (ends : Nat) {token other : String}
    (ne : token ≠ other) (own : ∀ lease, m.held? now key = some lease → lease.token = other) :
    ¬ (Unreleased key token entries ∧
      entries.findSome? (Entry.term? key token) = some ends ∧ now < ends) := by
  intro told
  exact ne (own _ ((h token ends).2 told))

theorem Told.changed (h : Told key now m entries) (change : Changes now key m n e) :
    Told key now n (e :: entries) := by
  intro token ends
  rw [unreleased_cons, List.findSome?_cons]
  cases change with
  | none silent same =>
    simp [held_of_same same, h token ends, silent.acquired, silent.releases, silent.term]
  | taken x ttl free lease =>
    have none : token ≠ x → ¬ _ := fun ne => h.stranger ends ne (by simp [free])
    rw [held_of_lease_now lease]
    by_cases own : x = token
    · subst own
      simp only [Entry.acquired?, Entry.term?, if_pos, and_self, true_or, true_and,
        Option.some.injEq, Held.mk.injEq]
      omega
    · simp [Entry.acquired?, Entry.term?, Entry.releases, own, none (Ne.symm own)]
  | extended x ttl mine lease =>
    obtain ⟨before, held, rfl⟩ := Option.map_eq_some_iff.1 mine
    have none : token ≠ before.token → ¬ _ := fun ne => h.stranger ends ne (by simp [held])
    rw [held_of_lease_now lease]
    by_cases own : before.token = token
    · subst own
      have got := ((h _ _).1 held).1
      simp only [Entry.acquired?, Entry.term?, Entry.releases, if_pos, and_self, true_and,
        Option.some.injEq, Held.mk.injEq, reduceCtorEq, false_or, got]
      omega
    · simp [Entry.acquired?, Entry.term?, Entry.releases, own, none (Ne.symm own)]
  | released x mine lease =>
    obtain ⟨before, held, rfl⟩ := Option.map_eq_some_iff.1 mine
    have none : token ≠ before.token → ¬ _ := fun ne => h.stranger ends ne (by simp [held])
    have free : n.held? now key = Option.none := by simp [Memory.held?, lease]
    by_cases own : before.token = token
    · simp [free, Entry.acquired?, Entry.releases, own]
    · simp [free, Entry.acquired?, Entry.term?, Entry.releases, own, none (Ne.symm own)]

end Told

namespace Register

variable {key : String} {r : Register}

/-- A call that breaks off leaves everything as it was. Any other call is entered. -/
theorem next_call (r : Register) (c : StoreCall) :
    r.answer c = none ∧ r.next (.call c) = r ∨
    r.answer c = some (r.store.call r.now c).1 ∧
      r.next (.call c) =
        ⟨(r.store.call r.now c).2, r.now, ⟨r.now, c, (r.store.call r.now c).1⟩ :: r.entries⟩ := by
  rw [next, answer]
  cases r.store.breaksOff r.now c with
  | true => exact .inl ⟨rfl, rfl⟩
  | false => exact .inr ⟨rfl, rfl⟩

theorem told_next (h : Told key r.now r.store.memory r.entries) (a : Act) :
    Told key (r.next a).now (r.next a).store.memory (r.next a).entries := by
  cases a with
  | pass nanos =>
    intro token ends
    have before := h token ends
    have sooner : r.now + nanos < ends → r.now < ends := Nat.lt_of_le_of_lt (Nat.le_add_right ..)
    rw [held_iff] at before
    refine held_iff.trans ⟨fun ⟨lease, later⟩ => ?_, fun ⟨got, term, later⟩ => ?_⟩
    · obtain ⟨got, term, -⟩ := before.1 ⟨lease, sooner later⟩
      exact ⟨got, term, later⟩
    · exact ⟨(before.2 ⟨got, term, sooner later⟩).1, later⟩
  | cutOff unavailable => exact h
  | sweep =>
    refine fun token ends => Iff.trans ?_ (h token ends)
    exact held_iff.trans ⟨fun swept => swept.1, fun held => ⟨held, (held_iff.1 held).2⟩⟩
  | call c =>
    obtain ⟨-, same⟩ | ⟨-, made⟩ := r.next_call c
    · rwa [same]
    · rw [made]
      exact h.changed (r.store.changes r.now key c)

theorem told_run (acts : List Act) :
    Told key (empty.run acts).now (empty.run acts).store.memory (empty.run acts).entries := by
  have kept : ∀ r : Register, Told key r.now r.store.memory r.entries →
      Told key (r.run acts).now (r.run acts).store.memory (r.run acts).entries := by
    induction acts with
    | nil => exact fun r h => h
    | cons a acts ih => exact fun r h => ih (r.next a) (told_next h a)
  refine kept empty fun token ends => ?_
  simp [empty, Unreleased, Memory.held?, FaultyStore.empty, Memory.empty]

theorem answer_lock {c : StoreCall} (reachable : r.store.unavailable = false)
    (lock : c.lockToken? ≠ none) : r.answer c =
      if r.store.memory.breaksOff r.now c then none else some (r.store.memory.call r.now c).1 := by
  have allowed : r.store.refusedKey? c = none := by
    cases c with
    | setInt k v => exact absurd rfl lock
    | _ => rfl
  rw [answer, FaultyStore.call_of_allowed allowed, FaultyStore.breaksOff, allowed, reachable]
  rfl

theorem answer_tryLock (reachable : r.store.unavailable = false) (key token : String)
    (ttl : Interval) :
    (r.answer (.tryLock key token ttl) = some (.ok true) ↔ r.holder? key = none ∧ r.Tells ttl) ∧
    (r.answer (.tryLock key token ttl) = none ↔ r.holder? key = none ∧ ¬ r.Tells ttl) := by
  rw [answer_lock reachable (by simp [StoreCall.lockToken?]), holder?, held?, Tells]
  cases held : r.store.memory.held? r.now key with
  | none =>
    simp only [Memory.breaksOff, Memory.isLocked, held, Memory.call_tryLock_free held, Memory.lease]
    by_cases tells : r.now + max ttl.nanos 1000000 < Memory.horizon
    · simp [tells, Nat.not_le_of_lt tells]
    · simp [tells, Nat.le_of_not_lt tells]
  | some lease => simp [Memory.breaksOff, Memory.isLocked, held, Memory.call_tryLock_held held]

theorem answer_extendLock (reachable : r.store.unavailable = false) (key token : String)
    (ttl : Interval) :
    (r.answer (.extendLock key token ttl) = some (.ok true) ↔
      r.holder? key = some token ∧ r.Tells ttl) ∧
    (r.answer (.extendLock key token ttl) = none ↔ r.holder? key = some token ∧ ¬ r.Tells ttl) := by
  rw [answer_lock reachable (by simp [StoreCall.lockToken?]), holder?, held?, Tells]
  by_cases own : (r.store.memory.held? r.now key).map Held.token = some token
  · simp only [Memory.breaksOff, own, Memory.call_extendLock_own own, Memory.lease]
    by_cases tells : r.now + max ttl.nanos 1000000 < Memory.horizon
    · simp [tells, Nat.not_le_of_lt tells]
    · simp [tells, Nat.le_of_not_lt tells]
  · simp [Memory.breaksOff, own, Memory.call_extendLock_other own]

theorem answer_releaseLock (reachable : r.store.unavailable = false) (key token : String) :
    r.answer (.releaseLock key token) = some (.ok true) ↔ r.holder? key = some token := by
  rw [answer_lock reachable (by simp [StoreCall.lockToken?]), holder?, held?]
  by_cases own : (r.store.memory.held? r.now key).map Held.token = some token
  · simp [Memory.breaksOff, Memory.call_releaseLock_own own, own]
  · simp [Memory.breaksOff, Memory.call_releaseLock_other own, own]

theorem held_next (c : StoreCall) {lease : Held} (held : r.held? key = some lease)
    (other : c.lockToken? ≠ some lease.token) : (r.next (.call c)).held? key = some lease := by
  obtain ⟨-, same⟩ | ⟨-, made⟩ := r.next_call c
  · rwa [same]
  have change := r.store.changes r.now key c
  have mine : (r.store.memory.held? r.now key).map Held.token = some lease.token :=
    congrArg (Option.map Held.token) held
  rw [made]
  change (r.store.call r.now c).2.memory.held? r.now key = some lease
  generalize made : Entry.mk r.now c (r.store.call r.now c).1 = e at change
  have called : c = e.call := congrArg Entry.call made
  cases change with
  | none silent same => exact (held_of_same same).trans held
  | taken token ttl free => exact nomatch held.symm.trans free
  | extended token ttl own => exact absurd (called ▸ own.symm.trans mine) other
  | released token own => exact absurd (called ▸ own.symm.trans mine) other

def acquisitions (key : String) (entries : List Entry) : List String :=
  entries.filterMap (Entry.acquired? key)

def Traced (key : String) (r r' : Register) : Prop :=
  ∃ new, r'.entries = new ++ r.entries ∧ ∀ token, r'.holder? key = some token →
    r.holder? key = some token ∨ token ∈ acquisitions key new

theorem traced_next (key : String) (r : Register) (a : Act) : Traced key r (r.next a) := by
  cases a with
  | pass nanos =>
    refine ⟨[], rfl, fun token holds => .inl ?_⟩
    obtain ⟨lease, held, rfl⟩ := Option.map_eq_some_iff.1 holds
    have before : r.held? key = some lease := held_before (Nat.le_add_right ..) held
    rw [holder?, before, Option.map_some]
  | cutOff unavailable => exact ⟨[], rfl, fun token holds => .inl holds⟩
  | sweep =>
    refine ⟨[], rfl, fun token holds => .inl ?_⟩
    obtain ⟨lease, held, rfl⟩ := Option.map_eq_some_iff.1 holds
    have before : r.held? key = some lease := (held_iff.1 held).1
    rw [holder?, before, Option.map_some]
  | call c =>
    obtain ⟨-, same⟩ | ⟨-, made⟩ := r.next_call c
    · exact ⟨[], congrArg Register.entries same, fun token holds => .inl (by rwa [same] at holds)⟩
    rw [made]
    refine ⟨[⟨r.now, c, (r.store.call r.now c).1⟩], rfl, fun token holds => ?_⟩
    have change := r.store.changes r.now key c
    change ((r.store.call r.now c).2.memory.held? r.now key).map Held.token = some token at holds
    change _ ∨ token ∈ acquisitions key [⟨r.now, c, (r.store.call r.now c).1⟩]
    generalize Entry.mk r.now c (r.store.call r.now c).1 = e at change ⊢
    cases change with
    | none silent same =>
      exact .inl ((congrArg (Option.map Held.token) (held_of_same same)).symm.trans holds)
    | taken x ttl free lease =>
      rw [held_of_lease_now lease] at holds
      exact .inr (by simpa [acquisitions, Entry.acquired?] using holds.symm)
    | extended x ttl own lease =>
      rw [held_of_lease_now lease] at holds
      exact .inl (own.trans holds)
    | released x own lease => simp [Memory.held?, lease] at holds

theorem traced_run (key : String) (r : Register) (later : List Act) :
    Traced key r (r.run later) := by
  induction later generalizing r with
  | nil => exact ⟨[], rfl, fun token holds => .inl holds⟩
  | cons a later ih =>
    obtain ⟨first, entries, before⟩ := traced_next key r a
    obtain ⟨rest, entries', after⟩ := ih (r.next a)
    refine ⟨rest ++ first, ?_, fun token holds => ?_⟩
    · rw [List.append_assoc, ← entries]
      exact entries'
    · rw [acquisitions, List.filterMap_append, List.mem_append]
      obtain held | got := after token holds
      · exact (before token held).imp_right .inr
      · exact .inr (.inl got)

end Register

structure Memory.SameAt (key : String) (m n : Memory) : Prop where
  leases : n.leases key = m.leases key
  ints : n.ints key = m.ints key
  lists : n.lists key = m.lists key

/-- What a call answers, and what it leaves under its key, rests on what is under that key. -/
theorem Memory.SameAt.call {m n : Memory} {c : StoreCall} (h : SameAt c.key m n) (now : Nat) :
    (n.call now c).1 = (m.call now c).1 ∧ SameAt c.key (m.call now c).2 (n.call now c).2 := by
  obtain ⟨leases, ints, lists⟩ := h
  have held : ∀ key, n.leases key = m.leases key → n.held? now key = m.held? now key :=
    fun key same => held_of_same same
  cases c with
  | tryLock key token ttl =>
    have held := held key leases
    cases free : m.held? now key with
    | none =>
      rw [call_tryLock_free free, call_tryLock_free (held.trans free)]
      exact ⟨rfl, by simp [StoreCall.key], ints, lists⟩
    | some lease =>
      rw [call_tryLock_held free, call_tryLock_held (held.trans free)]
      exact ⟨rfl, leases, ints, lists⟩
  | extendLock key token ttl =>
    have held := held key leases
    by_cases own : (m.held? now key).map Held.token = some token
    · rw [call_extendLock_own own, call_extendLock_own (held ▸ own)]
      exact ⟨rfl, by simp [StoreCall.key], ints, lists⟩
    · rw [call_extendLock_other own, call_extendLock_other (held ▸ own)]
      exact ⟨rfl, leases, ints, lists⟩
  | releaseLock key token =>
    have held := held key leases
    by_cases own : (m.held? now key).map Held.token = some token
    · rw [call_releaseLock_own own, call_releaseLock_own (held ▸ own)]
      exact ⟨rfl, by simp [StoreCall.key], ints, lists⟩
    · rw [call_releaseLock_other own, call_releaseLock_other (held ▸ own)]
      exact ⟨rfl, leases, ints, lists⟩
  | getInt key =>
    change n.ints key = m.ints key at ints
    simp only [Memory.call, ints]
    exact ⟨trivial, leases, ints, lists⟩
  | setInt key value => exact ⟨rfl, leases, by simp [Memory.call, StoreCall.key], lists⟩
  | push key timestamp =>
    change n.lists key = m.lists key at lists
    simp only [Memory.call, lists]
    exact ⟨trivial, leases, ints, by simp [StoreCall.key]⟩
  | popOldest key =>
    change n.lists key = m.lists key at lists
    simp only [Memory.call, lists]
    split
    · exact ⟨rfl, leases, ints, by simp [StoreCall.key]⟩
    · exact ⟨rfl, leases, ints, lists⟩
  | length key =>
    change n.lists key = m.lists key at lists
    simp only [Memory.call, lists]
    exact ⟨trivial, leases, ints, lists⟩

theorem Memory.SameAt.breaksOff {m n : Memory} {c : StoreCall} (h : SameAt c.key m n) (now : Nat) :
    n.breaksOff now c = m.breaksOff now c := by
  have held : n.held? now c.key = m.held? now c.key := held_of_same h.leases
  cases c with
  | tryLock key token ttl | extendLock key token ttl =>
    rw [StoreCall.key] at held
    simp only [Memory.breaksOff, Memory.isLocked, held]
  | _ => rfl

namespace Register

def Act.concerns (key : String) : Act → Bool
  | .call c => c.key = key
  | _ => true

structure Mirrors (key : String) (r a : Register) : Prop where
  same : Memory.SameAt key r.store.memory a.store.memory
  reachable : a.store.unavailable = r.store.unavailable
  unrefused : r.store.refused = [] ∧ a.store.refused = []
  now : a.now = r.now
  entries : a.entries = r.entries.filter fun e => e.call.key = key

variable {key : String} {r a : Register}

theorem Mirrors.next (h : Mirrors key r a) {act : Act} (concerns : act.concerns key = true) :
    Mirrors key (r.next act) (a.next act) := by
  obtain ⟨same, reachable, unrefused, now, entries⟩ := h
  cases act with
  | pass nanos => exact ⟨same, reachable, unrefused, congrArg (· + nanos) now, entries⟩
  | cutOff unavailable => exact ⟨same, rfl, unrefused, now, entries⟩
  | sweep =>
    refine ⟨⟨?_, same.ints, same.lists⟩, reachable, unrefused, now, entries⟩
    simp only [Register.next, Memory.held?, same.leases, now]
  | call c =>
    obtain rfl : c.key = key := of_decide_eq_true concerns
    obtain ⟨answer, after⟩ := same.call r.now
    have mine := FaultyStore.call_of_allowed (FaultyStore.allowed_of_nil unrefused.1 c) r.now
    have alone := FaultyStore.call_of_allowed (FaultyStore.allowed_of_nil unrefused.2 c) r.now
    have breaks : a.store.breaksOff r.now c = r.store.breaksOff r.now c := by
      rw [FaultyStore.breaksOff, FaultyStore.breaksOff, reachable, same.breaksOff,
        FaultyStore.allowed_of_nil unrefused.1, FaultyStore.allowed_of_nil unrefused.2]
    simp only [Register.next, Register.answer, now, breaks]
    rw [reachable] at alone
    rw [mine, alone]
    cases r.store.breaksOff r.now c with
    | true => exact ⟨same, reachable, unrefused, now, entries⟩
    | false =>
      cases cut : r.store.unavailable with
      | true => exact ⟨same, reachable, unrefused, rfl, by simp [entries]⟩
      | false => exact ⟨after, rfl, unrefused, rfl, by simp [entries, answer]⟩

theorem Mirrors.other (h : Mirrors key r a) {c : StoreCall} (other : c.key ≠ key) :
    Mirrors key (r.next (.call c)) a := by
  obtain ⟨same, reachable, unrefused, now, entries⟩ := h
  obtain ⟨-, left⟩ | ⟨-, made⟩ := r.next_call c
  · rw [left]
    exact ⟨same, reachable, unrefused, now, entries⟩
  have call := FaultyStore.call_of_allowed (FaultyStore.allowed_of_nil unrefused.1 c) r.now
  obtain ⟨leases, ints, lists⟩ := Memory.call_of_ne r.now r.store.memory (Ne.symm other)
  rw [made, call]
  split
  · exact ⟨same, reachable, unrefused, now, by simp [entries, other]⟩
  · exact ⟨⟨same.leases.trans leases.symm, same.ints.trans ints.symm, same.lists.trans lists.symm⟩,
      reachable, unrefused, now, by simp [entries, other]⟩

theorem mirrors_run (h : Mirrors key r a) (acts : List Act) :
    Mirrors key (r.run acts) (a.run (acts.filter (Act.concerns key))) := by
  induction acts generalizing r a with
  | nil => exact h
  | cons act acts ih =>
    cases concerns : act.concerns key with
    | true =>
      rw [List.filter_cons_of_pos concerns]
      exact ih (h.next concerns)
    | false =>
      rw [List.filter_cons_of_neg (by simp [concerns])]
      cases act with
      | call c => exact ih (h.other (of_decide_eq_false concerns))
      | _ => cases concerns

/-- Who holds a key, and until when, follows from the calls on it: it is the token that has got the
key and has not given it up, until the end of its last term. A lock is taken if and only if nobody
holds it, and it is extended or given up by its holder only, unless the new term would end beyond all
instants that can be told: then the call breaks off, and nothing has changed. Calls in other names
change nothing for the holder, calls on other keys nothing at all, and a token that has lost the key
does not get it back unless it takes it anew. -/
theorem leases_tell (acts : List Act) (key : String) :
    let r := empty.run acts
    (∀ token ends, r.held? key = some ⟨token, ends⟩ ↔ Unreleased key token r.entries ∧
      r.entries.findSome? (Entry.term? key token) = some ends ∧ r.now < ends) ∧
    (r.store.unavailable = false → ∀ token ttl,
      (r.answer (.tryLock key token ttl) = some (.ok true) ↔
        r.holder? key = none ∧ r.Tells ttl) ∧
      (r.answer (.tryLock key token ttl) = none ↔ r.holder? key = none ∧ ¬ r.Tells ttl) ∧
      (r.answer (.extendLock key token ttl) = some (.ok true) ↔
        r.holder? key = some token ∧ r.Tells ttl) ∧
      (r.answer (.extendLock key token ttl) = none ↔
        r.holder? key = some token ∧ ¬ r.Tells ttl) ∧
      (r.answer (.releaseLock key token) = some (.ok true) ↔ r.holder? key = some token)) ∧
    (∀ c, r.answer c = none → r.next (.call c) = r) ∧
    (∀ c lease, r.held? key = some lease → c.lockToken? ≠ some lease.token →
      (r.next (.call c)).held? key = some lease) ∧
    (∀ token later, token ∈ acquisitions key r.entries → r.holder? key ≠ some token →
      (acquisitions key (r.run later).entries).Nodup → (r.run later).holder? key ≠ some token) ∧
    (empty.run (acts.filter (Act.concerns key))).held? key = r.held? key ∧
    (empty.run (acts.filter (Act.concerns key))).entries =
      r.entries.filter fun e => e.call.key = key := by
  intro r
  refine ⟨told_run acts, fun reachable token ttl => ?_, fun c broke => ?_, fun c lease => held_next c,
    ?_, ?_⟩
  · obtain ⟨taken, unanswered⟩ := answer_tryLock reachable key token ttl
    obtain ⟨extended, unanswered'⟩ := answer_extendLock reachable key token ttl
    exact ⟨taken, unanswered, extended, unanswered', answer_releaseLock reachable key token⟩
  · obtain ⟨-, same⟩ | ⟨answered, -⟩ := r.next_call c
    · exact same
    · cases broke.symm.trans answered
  · intro token later got lost distinct holds
    obtain ⟨new, entries, before⟩ := traced_run key r later
    obtain held | again := before token holds
    · exact lost held
    · rw [entries, acquisitions, List.filterMap_append, List.nodup_append] at distinct
      exact distinct.2.2 token again token got rfl
  · have start : Mirrors key empty empty := ⟨⟨rfl, rfl, rfl⟩, rfl, ⟨rfl, rfl⟩, rfl, rfl⟩
    obtain ⟨same, -, -, now, entries⟩ := mirrors_run start acts
    refine ⟨?_, entries⟩
    rw [held?, held?, now]
    exact held_of_same same.leases

def longest : Interval :=
  .ofSecs 0xFFFFFFFFFFFFFFFF

/-- The lease of the first owner is extended and runs out, another owner gets the lock at that
instant, and then the first one acts again. One call would never come to an end. -/
def takeover : List Act :=
  [.call (.tryLock "l1" "first" (.ofSecs 5)), .pass 4000000000,
    .call (.extendLock "l1" "first" (.ofSecs 5)), .call (.tryLock "l1" "second" (.ofMillis 0)),
    .call (.extendLock "l1" "first" longest), .pass 5000000000,
    .call (.tryLock "l2" "second" (.ofSecs 5)), .call (.tryLock "l1" "second" (.ofMillis 0)),
    .call (.extendLock "l1" "first" (.ofSecs 5)), .call (.releaseLock "l1" "first")]

theorem leases_tell_takeover :
    let r := empty.run takeover
    r.held? "l1" = some ⟨"second", 9001000000⟩ ∧ Unreleased "l1" "second" r.entries ∧
    r.answer (.tryLock "l1" "third" (.ofSecs 1)) ≠ some (.ok true) ∧
    r.answer (.tryLock "l3" "third" longest) = none ∧
    ∀ later, (acquisitions "l1" (r.run later).entries).Nodup →
      (r.run later).holder? "l1" ≠ some "first" := by
  obtain ⟨told, granted, -, -, lost, -⟩ := leases_tell takeover "l1"
  obtain ⟨-, free, -⟩ := leases_tell takeover "l3"
  have held : (empty.run takeover).held? "l1" = some ⟨"second", 9001000000⟩ := rfl
  have second : (empty.run takeover).holder? "l1" = some "second" := rfl
  refine ⟨held, ((told _ _).1 held).1, fun taken => ?_, ?_, fun later => ?_⟩
  · obtain ⟨nobody, -⟩ := (granted rfl "third" (.ofSecs 1)).1.1 taken
    exact nomatch second.symm.trans nobody
  · exact (free rfl "third" longest).2.1.2 ⟨rfl, by decide⟩
  · refine lost "first" later ?_ ?_
    · have got : acquisitions "l1" (empty.run takeover).entries = ["second", "first"] := rfl
      simp [got]
    · simp [second]

end Register
end BridgeNotifier
