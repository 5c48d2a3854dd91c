import BridgeNotifier.Proofs.Decimals
import BridgeNotifier.Proofs.StoreCalls
import BridgeNotifier.Store.Remote
import Mathlib.Algebra.Group.Nat.Defs
set_option autoImplicit false

namespace BridgeNotifier
open Text

theorem RemoteStore.word?_decimal (n : UInt64) :
    RemoteStore.word? (Numeral.decimal n.toNat) = some n := by
  have digits : ∀ c ∈ Numeral.render 10 n.toNat, c.isDigit = true :=
    Numeral.isDigit_of_mem_render n.toNat
  have unsigned : ∀ cs, Numeral.render 10 n.toNat ≠ '+' :: cs := by
    intro cs same
    have plus := digits '+' (by simp [same])
    revert plus
    decide
  have chars : (Numeral.decimal n.toNat).toList = Numeral.render 10 n.toNat :=
    String.toList_ofList
  unfold word?
  rw [chars]
  split
  · next cs same => exact absurd same (unsigned cs)
  · have value := Numeral.value?_decimal n.toNat
    simp [value, Numeral.render_ne_nil, Option.filter, n.toNat_lt]

theorem RemoteStore.optionalWord_decimal (n : UInt64) :
    RemoteStore.optionalWord (.text (Numeral.decimal n.toNat)) = .ok (some n) := by
  simp [optionalWord, word, word?_decimal, Except.map]

theorem RemoteStore.ofInt_natCast (n : Nat) : UInt64.ofInt n = UInt64.ofNat n := by
  apply UInt64.toNat_inj.1
  have wrapped : ((n : Int) % 2 ^ 64).toNat = n % 2 ^ 64 := by omega
  rw [UInt64.ofInt, wrapped, UInt64.toNat_ofNat', UInt64.toNat_ofNat', Nat.mod_mod]

namespace Server
variable {now ttl : Nat} {key text : String} {s : Server}

def expire (now : Nat) (s : Server) (key : String) (ttl : Nat) : ServerReply × Server :=
  match s.entry? now key with
  | some e => (.int 1, Function.update s key (some { e with ends := some (now + ttl) }))
  | none => (.int 0, s)

def delete (now : Nat) (s : Server) (key : String) : ServerReply × Server :=
  if (s.entry? now key).isSome then (.int 1, Function.update s key none) else (.int 0, s)

/-- What a script does that compares a key with a text first; a failed question ends it. -/
def scripted (now : Nat) (s : Server) (key text : String) (act : ServerReply × Server) :
    ServerReply × Server :=
  match (s.run now (.get key)).1 with
  | .failure message => (.failure message, s)
  | reply => if reply = .text text then act else (.int 0, s)

theorem run_extendIfHeld : s.run now (.extendIfHeld key text ttl) =
    s.scripted now key text (s.expire now key ttl) := by
  cases found : s.entry? now key with
  | none => simp [run, scripted, stored?, found]
  | some e =>
    obtain ⟨held | items, ends⟩ := e
    · by_cases same : held = text <;> simp [run, scripted, expire, stored?, found, same]
    · simp [run, scripted, stored?, found, wrongType]

theorem run_deleteIfHeld : s.run now (.deleteIfHeld key text) =
    s.scripted now key text (s.delete now key) := by
  cases found : s.entry? now key with
  | none => simp [run, scripted, stored?, found]
  | some e =>
    obtain ⟨held | items, ends⟩ := e
    · by_cases same : held = text <;> simp [run, scripted, delete, stored?, found, same]
    · simp [run, scripted, stored?, found, wrongType]

end Server

inductive StoreStep where
  | pass (millis : Nat)
  | call (c : StoreCall)

def StoreStep.calls : List StoreStep → List StoreCall
  | [] => []
  | .pass _ :: steps => calls steps
  | .call c :: steps => c :: calls steps

def StoreStep.answers {σ : Type}
    (call : Nat → σ → (c : StoreCall) → Except Error c.Answer × σ) (now : Nat) (s : σ) :
    List StoreStep → List (Σ c : StoreCall, Except Error c.Answer)
  | [] => []
  | .pass millis :: steps => answers call (now + millis) s steps
  | .call c :: steps => ⟨c, (call now s c).1⟩ :: answers call now (call now s c).2 steps

inductive KeyUse where
  | lock
  | number
  | list
  deriving DecidableEq, Repr

namespace StoreCall

def use : StoreCall → KeyUse
  | tryLock .. | extendLock .. | releaseLock .. => .lock
  | getInt _ | setInt .. => .number
  | push .. | popOldest _ | length _ => .list

def ttl? : StoreCall → Option Interval
  | tryLock _ _ ttl | extendLock _ _ ttl => some ttl
  | _ => none

/-- The lease of the call lasts whole milliseconds, no more than a server's clock can add. -/
def Whole (c : StoreCall) : Prop :=
  ∀ ttl ∈ c.ttl?, ttl = .ofMillis (.ofNat ttl.millis) ∧ ttl.millis < 2 ^ 62

instance (c : StoreCall) : Decidable c.Whole :=
  Option.decidableForallMem c.ttl?

end StoreCall

def Memory.callAt (now : Nat) (m : Memory) (c : StoreCall) : Except Error c.Answer × Memory :=
  m.call (now * 1000000) c

def ServerEntry.ofList : List UInt64 → Option ServerEntry
  | [] => none
  | l => some ⟨.list (l.map fun n => Numeral.decimal n.toNat), none⟩

/-- What the memory has under a key of a use, and what the server has. -/
def Mirrors (m : Memory) (s : Server) (key : String) : KeyUse → Prop
  | .lock => ∃ lease : Option (String × Nat),
      m.leases key = lease.map (fun l => ⟨l.1, l.2 * 1000000⟩) ∧
        s key = lease.map fun l => ⟨.text l.1, some l.2⟩
  | .number => s key = (m.ints key).map fun n => ⟨.text (Numeral.decimal n.toNat), none⟩
  | .list => s key = ServerEntry.ofList (m.lists key)

/-- A call is answered in the same way on both sides, and leaves its key the same on both. -/
structure Memory.Matches (m : Memory) (s : Server) (now : Nat) (c : StoreCall) : Prop where
  answer : (m.callAt now c).1 = (RemoteStore.call now s c).1
  after : Mirrors (m.callAt now c).2 (RemoteStore.call now s c).2 c.key c.use

section Calls
variable {now : Nat} {m : Memory} {s : Server} {c : StoreCall} {k : String}

theorem Memory.Matches.of_calls {x : Except Error c.Answer} {m' : Memory} {s' : Server}
    (hm : m.callAt now c = (x, m')) (hs : RemoteStore.call now s c = (x, s'))
    (after : Mirrors m' s' c.key c.use) : m.Matches s now c := by
  refine ⟨?_, ?_⟩
  · rw [hm, hs]
  · rw [hm, hs]
    exact after

theorem Memory.call_of_ne (now : Nat) (m : Memory) (h : k ≠ c.key) :
    (m.call now c).2.leases k = m.leases k ∧ (m.call now c).2.ints k = m.ints k ∧
      (m.call now c).2.lists k = m.lists k := by
  cases c with
  | tryLock key token ttl =>
    change k ≠ key at h
    simp only [Memory.call]
    split <;> simp [Function.update_of_ne h _ _]
  | extendLock key token ttl | releaseLock key token =>
    change k ≠ key at h
    simp only [Memory.call]
    split
    · split <;> simp [Function.update_of_ne h _ _]
    · simp
  | getInt key | length key => simp [Memory.call]
  | setInt key value | push key timestamp =>
    change k ≠ key at h
    simp [Memory.call, Function.update_of_ne h _ _]
  | popOldest key =>
    change k ≠ key at h
    simp only [Memory.call]
    split <;> simp [Function.update_of_ne h _ _]

theorem RemoteStore.call_of_ne (now : Nat) (s : Server) (h : k ≠ c.key) :
    (RemoteStore.call now s c).2 k = s k := by
  change (s.run now c.command).2 k = s k
  cases c with
  | tryLock key token ttl | push key timestamp =>
    change k ≠ key at h
    simp only [StoreCall.command, Server.run]
    split <;> simp [Function.update_of_ne h _ _]
  | extendLock key token ttl | releaseLock key token =>
    change k ≠ key at h
    simp only [StoreCall.command, Server.run]
    split
    · split <;> simp [Function.update_of_ne h _ _]
    · rfl
    · rfl
  | getInt key | length key =>
    simp only [StoreCall.command, Server.run]
    split <;> rfl
  | setInt key value =>
    change k ≠ key at h
    simp [StoreCall.command, Server.run, Function.update_of_ne h _ _]
  | popOldest key =>
    change k ≠ key at h
    simp only [StoreCall.command, Server.run]
    split
    · rfl
    · split <;> simp [Function.update_of_ne h _ _]
    · rfl

section Locks
variable {key token : String} {ttl : Interval} {millis : UInt64}

theorem held_of_lease (now : Nat) {lease : Option (String × Nat)}
    (hm : m.leases key = lease.map fun l => ⟨l.1, l.2 * 1000000⟩)
    (hs : s key = lease.map fun l => ⟨.text l.1, some l.2⟩) :
    (m.held? (now * 1000000) key).map Held.token = (lease.filter (now < ·.2)).map Prod.fst ∧
      s.stored? now key = (lease.filter (now < ·.2)).map fun l => .text l.1 := by
  cases lease with
  | none => simp [Memory.held?, Server.stored?, Server.entry?, hm, hs]
  | some l =>
    have clock : now * 1000000 < l.2 * 1000000 ↔ now < l.2 := by omega
    by_cases live : now < l.2 <;>
      simp [Memory.held?, Server.stored?, Server.entry?, hm, hs, Option.filter, clock, live]

theorem lease_ofMillis (token : String) : Memory.lease (now * 1000000) token (.ofMillis millis) =
    ⟨token, (now + max millis.toNat 1) * 1000000⟩ := by
  have longer : max (millis.toNat * 1000000) 1000000 = max millis.toNat 1 * 1000000 := by omega
  simp only [Memory.lease, Interval.ofMillis, longer, Nat.add_mul]

theorem leaseMillis_ofMillis : StoreCall.leaseMillis (.ofMillis millis) = max millis.toNat 1 := by
  simp [StoreCall.leaseMillis, Interval.millis, Interval.ofMillis]

theorem matches_tryLock (h : Mirrors m s key .lock) :
    m.Matches s now (.tryLock key token (.ofMillis millis)) := by
  obtain ⟨lease, hm, hs⟩ := h
  obtain ⟨held, stored⟩ := held_of_lease now hm hs
  cases live : lease.filter (now < ·.2) with
  | none =>
    rw [live] at held stored
    have free := Option.map_eq_none_iff.1 held
    have set : RemoteStore.call now s (.tryLock key token (.ofMillis millis)) = (.ok true,
        Function.update s key (some ⟨.text token, some (now + max millis.toNat 1)⟩)) := by
      simp [RemoteStore.call, StoreCall.command, Server.run, stored, RemoteStore.answer,
        RemoteStore.wasSet, leaseMillis_ofMillis]
    refine .of_calls (Memory.call_tryLock_free free) set ⟨some (token, now + max millis.toNat 1), ?_, ?_⟩
    · simp [StoreCall.key, lease_ofMillis]
    · simp [StoreCall.key]
  | some l =>
    rw [live] at held stored
    obtain ⟨lease', found, -⟩ := Option.map_eq_some_iff.1 held
    have refused : RemoteStore.call now s (.tryLock key token (.ofMillis millis)) =
        (.ok false, s) := by
      simp [RemoteStore.call, StoreCall.command, Server.run, stored, RemoteStore.answer,
        RemoteStore.wasSet]
    exact .of_calls (Memory.call_tryLock_held found) refused ⟨lease, hm, hs⟩

theorem matches_extendLock (h : Mirrors m s key .lock) :
    m.Matches s now (.extendLock key token (.ofMillis millis)) := by
  obtain ⟨lease, hm, hs⟩ := h
  obtain ⟨held, stored⟩ := held_of_lease now hm hs
  by_cases own : (lease.filter (now < ·.2)).map Prod.fst = some token
  · have mine := held.trans own
    obtain ⟨l, live, rfl⟩ := Option.map_eq_some_iff.1 own
    have renewed : RemoteStore.call now s (.extendLock key l.1 (.ofMillis millis)) = (.ok true,
        Function.update s key (some ⟨.text l.1, some (now + max millis.toNat 1)⟩)) := by
      simp [RemoteStore.call, StoreCall.command, Server.run, stored, live, RemoteStore.answer,
        RemoteStore.counted, leaseMillis_ofMillis]
    refine .of_calls (Memory.call_extendLock_own mine) renewed
      ⟨some (l.1, now + max millis.toNat 1), ?_, ?_⟩
    · simp [StoreCall.key, lease_ofMillis]
    · simp [StoreCall.key]
  · have other := fun same => own (held.symm.trans same)
    have left : RemoteStore.call now s (.extendLock key token (.ofMillis millis)) =
        (.ok false, s) := by
      cases live : lease.filter (now < ·.2) with
      | none =>
        simp [RemoteStore.call, StoreCall.command, Server.run, stored, live, RemoteStore.answer,
          RemoteStore.counted]
      | some l =>
        have other : l.1 ≠ token := by simpa [live] using own
        simp [RemoteStore.call, StoreCall.command, Server.run, stored, live, other,
          RemoteStore.answer, RemoteStore.counted]
    exact .of_calls (Memory.call_extendLock_other other) left ⟨lease, hm, hs⟩

theorem matches_releaseLock (h : Mirrors m s key .lock) :
    m.Matches s now (.releaseLock key token) := by
  obtain ⟨lease, hm, hs⟩ := h
  obtain ⟨held, stored⟩ := held_of_lease now hm hs
  by_cases own : (lease.filter (now < ·.2)).map Prod.fst = some token
  · have released := Memory.call_releaseLock_own (held.trans own)
    obtain ⟨l, live, rfl⟩ := Option.map_eq_some_iff.1 own
    have deleted : RemoteStore.call now s (.releaseLock key l.1) =
        (.ok true, Function.update s key none) := by
      simp [RemoteStore.call, StoreCall.command, Server.run, stored, live, RemoteStore.answer,
        RemoteStore.counted]
    exact .of_calls released deleted ⟨none, by simp [StoreCall.key], by simp [StoreCall.key]⟩
  · have refused := Memory.call_releaseLock_other (fun same => own (held.symm.trans same))
    have left : RemoteStore.call now s (.releaseLock key token) = (.ok false, s) := by
      cases live : lease.filter (now < ·.2) with
      | none =>
        simp [RemoteStore.call, StoreCall.command, Server.run, stored, live, RemoteStore.answer,
          RemoteStore.counted]
      | some l =>
        have other : l.1 ≠ token := by simpa [live] using own
        simp [RemoteStore.call, StoreCall.command, Server.run, stored, live, other,
          RemoteStore.answer, RemoteStore.counted]
    exact .of_calls refused left ⟨lease, hm, hs⟩

end Locks

theorem stored_of_none {key : String} (h : s key = none) : s.stored? now key = none := by
  simp [Server.stored?, Server.entry?, h]

theorem entry_of_endless (now : Nat) {key : String} {stored : Stored}
    (h : s key = some ⟨stored, none⟩) :
    s.entry? now key = some ⟨stored, none⟩ ∧ s.stored? now key = some stored := by
  simp [Server.stored?, Server.entry?, h, Option.filter]

section Numbers
variable {key : String} {value : UInt64}

theorem matches_getInt (h : Mirrors m s key .number) : m.Matches s now (.getInt key) := by
  have entry : s key = (m.ints key).map fun n => ⟨.text (Numeral.decimal n.toNat), none⟩ := h
  have read : RemoteStore.call now s (.getInt key) = (.ok (m.ints key), s) := by
    cases number : m.ints key with
    | none =>
      rw [number] at entry
      simp [RemoteStore.call, StoreCall.command, Server.run, stored_of_none entry,
        RemoteStore.answer, RemoteStore.optionalWord]
    | some n =>
      rw [number] at entry
      simp [RemoteStore.call, StoreCall.command, Server.run, (entry_of_endless now entry).2,
        RemoteStore.answer, RemoteStore.optionalWord_decimal]
  exact .of_calls rfl read h

theorem matches_setInt : m.Matches s now (.setInt key value) := by
  have written : RemoteStore.call now s (.setInt key value) = (.ok (),
      Function.update s key (some ⟨.text (Numeral.decimal value.toNat), none⟩)) :=
    congrArg (Prod.mk _) (s.put_eq key _)
  refine .of_calls (Memory.call_setInt now m key value) written ?_
  change Function.update s key _ key = (Function.update m.ints key (some value) key).map _
  simp

end Numbers

section Lists
variable {key : String} {timestamp : UInt64}

theorem matches_length (h : Mirrors m s key .list) : m.Matches s now (.length key) := by
  have entry : s key = ServerEntry.ofList (m.lists key) := h
  have counted : RemoteStore.call now s (.length key) =
      (.ok (UInt64.ofInt (m.lists key).length), s) := by
    cases list : m.lists key with
    | nil =>
      rw [list] at entry
      simp [RemoteStore.call, StoreCall.command, Server.run, stored_of_none entry,
        RemoteStore.answer, RemoteStore.word]
    | cons n rest =>
      rw [list] at entry
      simp [RemoteStore.call, StoreCall.command, Server.run, (entry_of_endless now entry).2,
        RemoteStore.answer, RemoteStore.word]
  rw [RemoteStore.ofInt_natCast] at counted
  exact .of_calls rfl counted h

theorem matches_push (h : Mirrors m s key .list) : m.Matches s now (.push key timestamp) := by
  have entry : s key = ServerEntry.ofList (m.lists key) := h
  have pushed : RemoteStore.call now s (.push key timestamp) =
      (.ok (UInt64.ofInt (timestamp :: m.lists key).length),
        Function.update s key (ServerEntry.ofList (timestamp :: m.lists key))) := by
    cases list : m.lists key with
    | nil =>
      rw [list] at entry
      simp [RemoteStore.call, StoreCall.command, Server.run, stored_of_none entry,
        RemoteStore.answer, RemoteStore.word, ServerEntry.ofList]
    | cons n rest =>
      rw [list] at entry
      simp [RemoteStore.call, StoreCall.command, Server.run, entry_of_endless now entry,
        RemoteStore.answer, RemoteStore.word, ServerEntry.ofList]
  rw [RemoteStore.ofInt_natCast] at pushed
  refine .of_calls (Memory.call_push now m key timestamp) pushed ?_
  change Function.update s key _ key = ServerEntry.ofList (Function.update m.lists key _ key)
  simp

theorem matches_popOldest (h : Mirrors m s key .list) : m.Matches s now (.popOldest key) := by
  have entry : s key = ServerEntry.ofList (m.lists key) := h
  cases oldest : (m.lists key).getLast? with
  | none =>
    rw [List.getLast?_eq_none_iff.1 oldest] at entry
    have kept : m.callAt now (.popOldest key) = (.error (Memory.emptyList key), m) := by
      simp [Memory.callAt, Memory.call, oldest]
    have empty : RemoteStore.call now s (.popOldest key) =
        (.error (Memory.emptyList key), s) := by
      simp only [RemoteStore.call, StoreCall.command, Server.run, stored_of_none entry,
        RemoteStore.answer, RemoteStore.optionalWord]
      rfl
    exact .of_calls kept empty h
  | some n =>
    have popped : m.callAt now (.popOldest key) = (.ok n, { m with
        lists := Function.update m.lists key (m.lists key).dropLast, writes := m.writes + 1 }) := by
      simp [Memory.callAt, Memory.call, oldest]
    have taken : RemoteStore.call now s (.popOldest key) =
        (.ok n, Function.update s key (ServerEntry.ofList (m.lists key).dropLast)) := by
      cases list : m.lists key with
      | nil =>
        rw [list] at oldest
        cases oldest
      | cons first rest =>
        rw [list] at entry oldest
        have last : ((first :: rest).map fun n => Numeral.decimal n.toNat).getLast? =
            some (Numeral.decimal n.toNat) := by
          rw [List.getLast?_map, oldest]
          rfl
        have left : (if ((first :: rest).map fun n => Numeral.decimal n.toNat).length = 1 then none
            else some ⟨.list ((first :: rest).map fun n => Numeral.decimal n.toNat).dropLast, none⟩) =
            ServerEntry.ofList (first :: rest).dropLast := by
          cases rest with
          | nil => rfl
          | cons second rest => simp [ServerEntry.ofList, List.map_dropLast]
        have stored := entry_of_endless now entry
        simp only [RemoteStore.call, StoreCall.command, Server.run, stored, last,
          Option.bind_some, left, Server.put_eq, RemoteStore.answer, RemoteStore.optionalWord_decimal]
        rfl
    refine .of_calls popped taken ?_
    change Function.update s key _ key = ServerEntry.ofList (Function.update m.lists key _ key)
    simp

end Lists

end Calls

def Mirrored (uses : String → KeyUse) (m : Memory) (s : Server) : Prop :=
  ∀ key, Mirrors m s key (uses key)

section Runs
variable {uses : String → KeyUse} {now : Nat} {m : Memory} {s : Server} {c : StoreCall}

theorem mirrored_empty (uses : String → KeyUse) : Mirrored uses .empty .empty := by
  intro key
  cases uses key with
  | lock => exact ⟨none, rfl, rfl⟩
  | number => rfl
  | list => rfl

theorem matches_of_mirrored (h : Mirrored uses m s) (hc : uses c.key = c.use) (whole : c.Whole) :
    m.Matches s now c := by
  have mirrors : Mirrors m s c.key c.use := hc ▸ h c.key
  cases c with
  | tryLock key token ttl =>
    rw [(whole ttl rfl).1]
    exact matches_tryLock mirrors
  | extendLock key token ttl =>
    rw [(whole ttl rfl).1]
    exact matches_extendLock mirrors
  | releaseLock key token => exact matches_releaseLock mirrors
  | getInt key => exact matches_getInt mirrors
  | setInt key value => exact matches_setInt
  | push key timestamp => exact matches_push mirrors
  | popOldest key => exact matches_popOldest mirrors
  | length key => exact matches_length mirrors

theorem mirrored_call (h : Mirrored uses m s) (hc : uses c.key = c.use) (whole : c.Whole) :
    Mirrored uses (m.callAt now c).2 (RemoteStore.call now s c).2 := by
  intro key
  by_cases same : key = c.key
  · subst same
    rw [hc]
    exact (matches_of_mirrored h hc whole).after
  · obtain ⟨leases, ints, lists⟩ := Memory.call_of_ne (now * 1000000) m same
    have server := RemoteStore.call_of_ne now s same
    have before := h key
    cases use : uses key with
    | lock =>
      rw [use] at before
      obtain ⟨lease, hm, hs⟩ := before
      exact ⟨lease, leases.trans hm, server.trans hs⟩
    | number =>
      rw [use] at before
      exact server.trans (before.trans (congrArg (Option.map _) ints.symm))
    | list =>
      rw [use] at before
      exact server.trans (before.trans (congrArg ServerEntry.ofList lists.symm))

theorem answers_of_mirrored {steps : List StoreStep} (h : Mirrored uses m s)
    (used : ∀ c ∈ StoreStep.calls steps, uses c.key = c.use)
    (whole : ∀ c ∈ StoreStep.calls steps, c.Whole) :
    StoreStep.answers Memory.callAt now m steps =
      StoreStep.answers RemoteStore.call now s steps := by
  induction steps generalizing now m s with
  | nil => rfl
  | cons step steps ih =>
    cases step with
    | pass millis => exact ih h used whole
    | call c =>
      have hc := used c List.mem_cons_self
      have ttls := whole c List.mem_cons_self
      simp only [StoreStep.answers]
      rw [(matches_of_mirrored h hc ttls).answer, ih (mirrored_call h hc ttls)
        (fun c hc => used c (List.mem_cons_of_mem _ hc))
        fun c hc => whole c (List.mem_cons_of_mem _ hc)]

theorem exists_uses {calls : List StoreCall}
    (apart : ∀ c ∈ calls, ∀ c' ∈ calls, c.key = c'.key → c.use = c'.use) :
    ∃ uses : String → KeyUse, ∀ c ∈ calls, uses c.key = c.use := by
  refine ⟨fun key => (calls.find? fun c => c.key = key).elim .lock StoreCall.use, fun c hc => ?_⟩
  cases found : calls.find? fun c' => c'.key = c.key with
  | none => simpa using List.find?_eq_none.1 found c hc
  | some c' =>
    have same : c'.key = c.key := by simpa using List.find?_some found
    simpa [found] using apart c' (List.mem_of_find?_eq_some found) c hc same

end Runs

/-- Both stores, empty at first, answer every run of calls alike, if no key is used in two ways and
leases last whole milliseconds. -/
theorem stores_agree {steps : List StoreStep}
    (apart : ∀ c ∈ StoreStep.calls steps, ∀ c' ∈ StoreStep.calls steps,
      c.key = c'.key → c.use = c'.use)
    (whole : ∀ c ∈ StoreStep.calls steps, c.Whole) (now : Nat) :
    StoreStep.answers Memory.callAt now .empty steps =
      StoreStep.answers RemoteStore.call now .empty steps := by
  obtain ⟨uses, used⟩ := exists_uses apart
  exact answers_of_mirrored (mirrored_empty uses) used whole

/-- A lease is renewed for no time at all and taken by somebody else once it has ended, a number is
written, and a list runs empty. -/
def mixedRun : List StoreStep := [
  .call (.tryLock "lock" "a" (.ofMillis 5)), .pass 4, .call (.extendLock "lock" "a" (.ofMillis 0)),
  .pass 1, .call (.tryLock "lock" "b" (.ofMillis 5)), .call (.releaseLock "lock" "a"),
  .call (.setInt "head" 0xFFFFFFFFFFFFFFFF), .call (.getInt "head"), .call (.push "times" 7),
  .call (.popOldest "times"), .call (.popOldest "times")]

theorem stores_agree_mixedRun :
    StoreStep.answers RemoteStore.call 0 .empty mixedRun = [
      ⟨.tryLock "lock" "a" (.ofMillis 5), .ok true⟩,
      ⟨.extendLock "lock" "a" (.ofMillis 0), .ok true⟩,
      ⟨.tryLock "lock" "b" (.ofMillis 5), .ok true⟩, ⟨.releaseLock "lock" "a", .ok false⟩,
      ⟨.setInt "head" 0xFFFFFFFFFFFFFFFF, .ok ()⟩,
      ⟨.getInt "head", .ok (some 0xFFFFFFFFFFFFFFFF)⟩, ⟨.push "times" 7, .ok 1⟩,
      ⟨.popOldest "times", .ok 7⟩, ⟨.popOldest "times", .error (Memory.emptyList "times")⟩] := by
  rw [← stores_agree (by decide) (by decide) 0]
  rfl

end BridgeNotifier
