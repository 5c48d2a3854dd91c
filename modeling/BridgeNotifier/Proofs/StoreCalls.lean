import BridgeNotifier.Store.Memory
import BridgeNotifier.Store.Server
import Mathlib.Logic.Function.Basic
set_option autoImplicit false

namespace BridgeNotifier

@[simp] theorem Server.put_eq (s : Server) (key : String) (entry : Option ServerEntry) :
    s.put key entry = Function.update s key entry :=
  funext fun k => (Function.update_apply s key entry k).symm

namespace Memory

@[simp] theorem setLease_eq (m : Memory) (key : String) (held : Option Held) :
    m.setLease key held = { m with leases := Function.update m.leases key held } :=
  congrArg (fun leases => { m with leases := leases })
    (funext fun k => (Function.update_apply m.leases key held k).symm)

@[simp] theorem writeInt_eq (m : Memory) (key : String) (value : UInt64) :
    m.writeInt key value =
      { m with ints := Function.update m.ints key (some value), writes := m.writes + 1 } :=
  congrArg (fun ints => { m with ints := ints, writes := m.writes + 1 })
    (funext fun k => (Function.update_apply m.ints key (some value) k).symm)

@[simp] theorem writeList_eq (m : Memory) (key : String) (list : List UInt64) :
    m.writeList key list =
      { m with lists := Function.update m.lists key list, writes := m.writes + 1 } :=
  congrArg (fun lists => { m with lists := lists, writes := m.writes + 1 })
    (funext fun k => (Function.update_apply m.lists key list k).symm)

theorem call_setInt (now : Nat) (m : Memory) (key : String) (value : UInt64) :
    call now m (.setInt key value) =
      (.ok (), { m with ints := Function.update m.ints key (some value), writes := m.writes + 1 }) :=
  congrArg (Prod.mk _) (writeInt_eq m key value)

theorem call_push (now : Nat) (m : Memory) (key : String) (timestamp : UInt64) :
    call now m (.push key timestamp) =
      (.ok (UInt64.ofNat (timestamp :: m.lists key).length), { m with
        lists := Function.update m.lists key (timestamp :: m.lists key), writes := m.writes + 1 }) :=
  congrArg (Prod.mk _) (writeList_eq m key _)

theorem call_popOldest {now : Nat} {m : Memory} {key : String} {oldest : UInt64}
    (last : (m.lists key).getLast? = some oldest) :
    call now m (.popOldest key) = (.ok oldest, { m with
      lists := Function.update m.lists key (m.lists key).dropLast, writes := m.writes + 1 }) := by
  simp only [call, last, writeList_eq]

section Locks
variable {now : Nat} {m : Memory} {key token : String} {ttl : Interval}

theorem call_tryLock_free (h : m.held? now key = none) :
    call now m (.tryLock key token ttl) =
      (.ok true, { m with leases := Function.update m.leases key (some (lease now token ttl)) }) := by
  simp [call, isLocked, h]

theorem call_tryLock_held {held : Held} (h : m.held? now key = some held) :
    call now m (.tryLock key token ttl) = (.ok false, m) := by
  simp [call, isLocked, h]

theorem call_extendLock_own (h : (m.held? now key).map Held.token = some token) :
    call now m (.extendLock key token ttl) =
      (.ok true, { m with leases := Function.update m.leases key (some (lease now token ttl)) }) := by
  obtain ⟨held, hk, rfl⟩ := Option.map_eq_some_iff.1 h
  simp [call, hk]

theorem call_extendLock_other (h : (m.held? now key).map Held.token ≠ some token) :
    call now m (.extendLock key token ttl) = (.ok false, m) := by
  cases hk : m.held? now key with
  | none => simp [call, hk]
  | some held =>
    have ne : held.token ≠ token := by simpa [hk] using h
    simp [call, hk, ne]

theorem call_releaseLock_own (h : (m.held? now key).map Held.token = some token) :
    call now m (.releaseLock key token) =
      (.ok true, { m with leases := Function.update m.leases key none }) := by
  obtain ⟨held, hk, rfl⟩ := Option.map_eq_some_iff.1 h
  simp [call, hk]

theorem call_releaseLock_other (h : (m.held? now key).map Held.token ≠ some token) :
    call now m (.releaseLock key token) = (.ok false, m) := by
  cases hk : m.held? now key with
  | none => simp [call, hk]
  | some held =>
    have ne : held.token ≠ token := by simpa [hk] using h
    simp [call, hk, ne]

end Locks

theorem call_error {now : Nat} {m n : Memory} {c : StoreCall} {err : Error}
    (h : (.error err, n) = call now m c) : n = m := by
  cases c with
  | tryLock key token ttl =>
    cases hk : m.held? now key with
    | none => cases (call_tryLock_free hk).symm.trans h.symm
    | some held => cases (call_tryLock_held hk).symm.trans h.symm
  | extendLock key token ttl =>
    by_cases own : (m.held? now key).map Held.token = some token
    · cases (call_extendLock_own own).symm.trans h.symm
    · cases (call_extendLock_other own).symm.trans h.symm
  | releaseLock key token =>
    by_cases own : (m.held? now key).map Held.token = some token
    · cases (call_releaseLock_own own).symm.trans h.symm
    · cases (call_releaseLock_other own).symm.trans h.symm
  | popOldest key =>
    simp only [call] at h
    split at h
    · cases h
    · cases h
      rfl
  | _ => cases h

end Memory
end BridgeNotifier
