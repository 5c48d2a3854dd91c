import BridgeNotifier.Program
set_option autoImplicit false

/-!
# Locks between replicas

A tick runs under a lease of its own key. The lease is renewed three times as often as it would
end, until it is given up or found lost.
-/
namespace BridgeNotifier

inductive Outcome where
  | locked
  | noChange
  | advanced (start stop dispatched : UInt64)
  deriving DecidableEq, Repr

namespace Outcome

def label : Outcome → String
  | .locked => "skipped_locked"
  | .noChange => "no_change"
  | .advanced .. => "ok"

end Outcome

namespace Lease

def period (l : Lease) : Nat :=
  max (l.ttl.nanos / 3) 1000000

/-- One round of the renewals of a lease. A renewal that fails is tried again a period later, one
that finds the lease lost is the last. -/
def renew (l : Lease) (deadline : Nat) : Program Unit := do
  if ← Program.request (.pause deadline (.lease l)) then
    match ← Program.request (.store (.extendLock l.key l.token l.ttl)) with
    | .ok false => return ()
    | _ => Program.loop (.renewal l (deadline + l.period))

def keep (l : Lease) : Program Unit := do
  let now ← Program.request .instant
  Program.loop (.renewal l (now + l.period))

/-- Give the key up; if that fails, the lease ends by itself. -/
def giveUp (l : Lease) : Program Unit := do
  let _ ← Program.request (.store (.releaseLock l.key l.token))

end Lease

namespace Lock

def acquire (key : String) (ttl : Interval) : Routine (Option Lease) := do
  let token ← ExceptT.lift (Program.request .token)
  if ← Routine.store (.tryLock key token ttl) then
    let l : Lease := ⟨key, token, ttl⟩
    ExceptT.lift (Program.request (.hold l))
    return some l
  else return none

def release (l : Lease) : Program Unit := do
  Program.request (.letGo l)
  l.giveUp

/-- Run a routine under a lock. The lock is given up whatever the routine comes to. -/
def guarded (key : String) (ttl : Interval) (body : Routine Outcome) : Routine Outcome := do
  match ← acquire key ttl with
  | none => return .locked
  | some l =>
    let outcome ← ExceptT.lift body.run
    ExceptT.lift (release l)
    Routine.ofProgram (pure outcome)

end Lock
end BridgeNotifier
