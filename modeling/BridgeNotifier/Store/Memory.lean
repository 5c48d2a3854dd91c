import BridgeNotifier.Calls
set_option autoImplicit false

/-!
# The store in memory

Leases, numbers and lists as functions of their keys. A lease ends by itself: from the instant of
its expiry on, its key counts as free.
-/
namespace BridgeNotifier

/-- Who holds a key, and from which instant on nobody does. -/
structure Held where
  token : String
  expiry : Nat
  deriving DecidableEq, Repr

structure Memory where
  leases : String → Option Held
  ints : String → Option UInt64
  /-- Lists of timestamps, the newest first. -/
  lists : String → List UInt64
  writes : Nat

namespace Memory

def empty : Memory :=
  ⟨fun _ => none, fun _ => none, fun _ => [], 0⟩

def held? (m : Memory) (now : Nat) (key : String) : Option Held :=
  (m.leases key).filter fun h => now < h.expiry

def isLocked (m : Memory) (now : Nat) (key : String) : Bool :=
  (m.held? now key).isSome

/-- A lease lasts one millisecond at least. -/
def lease (now : Nat) (token : String) (ttl : Interval) : Held :=
  ⟨token, now + max ttl.nanos 1000000⟩

/-- The first instant that no clock can tell: its seconds are a signed 64-bit word. -/
def horizon : Nat := 0x8000000000000000 * 1000000000

/-- The call would make a lease that ends beyond all that can be told. Who makes it breaks down, and
nothing has changed; it has no answer then. -/
def breaksOff (now : Nat) (m : Memory) : StoreCall → Bool
  | .tryLock key token ttl => !m.isLocked now key && horizon ≤ (lease now token ttl).expiry
  | .extendLock key token ttl =>
    (m.held? now key).map Held.token = some token && horizon ≤ (lease now token ttl).expiry
  | _ => false

def emptyList (key : String) : Error :=
  ⟨.keyValue, "list " ++ key ++ " is empty"⟩

def setLease (m : Memory) (key : String) (held : Option Held) : Memory :=
  { m with leases := fun k => if k = key then held else m.leases k }

def writeInt (m : Memory) (key : String) (value : UInt64) : Memory :=
  { m with ints := fun k => if k = key then some value else m.ints k, writes := m.writes + 1 }

def writeList (m : Memory) (key : String) (list : List UInt64) : Memory :=
  { m with lists := fun k => if k = key then list else m.lists k, writes := m.writes + 1 }

/-- The answer to a call at an instant that does not break off, and the store after it. -/
def call (now : Nat) (m : Memory) : (c : StoreCall) → Except Error c.Answer × Memory
  | .tryLock key token ttl =>
    if m.isLocked now key then (.ok false, m)
    else (.ok true, m.setLease key (some (lease now token ttl)))
  | .extendLock key token ttl =>
    match m.held? now key with
    | some h =>
      if h.token = token then (.ok true, m.setLease key (some (lease now token ttl)))
      else (.ok false, m)
    | none => (.ok false, m)
  | .releaseLock key token =>
    match m.held? now key with
    | some h =>
      if h.token = token then (.ok true, m.setLease key none)
      else (.ok false, m)
    | none => (.ok false, m)
  | .getInt key => (.ok (m.ints key), m)
  | .setInt key value => (.ok (), m.writeInt key value)
  | .push key timestamp =>
    let l := timestamp :: m.lists key
    (.ok (UInt64.ofNat l.length), m.writeList key l)
  | .popOldest key =>
    match (m.lists key).getLast? with
    | some t => (.ok t, m.writeList key (m.lists key).dropLast)
    | none => (.error (emptyList key), m)
  | .length key => (.ok (UInt64.ofNat (m.lists key).length), m)

end Memory

structure FaultyStore where
  memory : Memory
  unavailable : Bool
  /-- Keys whose next write is refused, once for each time they occur. -/
  refused : List String

namespace FaultyStore

def empty : FaultyStore := ⟨.empty, false, []⟩

def cutOff : Error :=
  ⟨.keyValue, "connection: memory store marked unavailable"⟩

def refusal (key : String) : Error :=
  ⟨.keyValue, "write to " ++ key ++ " refused"⟩

def refusedKey? (s : FaultyStore) : StoreCall → Option String
  | .setInt key _ => if s.refused.contains key then some key else none
  | _ => none

def call (now : Nat) (s : FaultyStore) (c : StoreCall) : Except Error c.Answer × FaultyStore :=
  match s.refusedKey? c with
  | some key => (.error (refusal key), { s with refused := s.refused.erase key })
  | none =>
    if s.unavailable then (.error cutOff, s)
    else
      let (answer, memory) := s.memory.call now c
      (answer, { s with memory := memory })

/-- The call reaches the memory, and breaks off there. -/
def breaksOff (now : Nat) (s : FaultyStore) (c : StoreCall) : Bool :=
  (s.refusedKey? c).isNone && !s.unavailable && s.memory.breaksOff now c

end FaultyStore
end BridgeNotifier
