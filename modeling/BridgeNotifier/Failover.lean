import BridgeNotifier.Error
import BridgeNotifier.Interval
import BridgeNotifier.Text.Characters
set_option autoImplicit false

/-!
# Failover between endpoints

Calls go to the active endpoint of a list. An endpoint is tried several times before the next one
becomes active. Calls that run at the same time share the active endpoint.
-/
namespace BridgeNotifier

structure FailoverPolicy where
  attemptsPerUrl : Nat
  retryDelay : Interval
  attemptTimeout : Interval
  deriving DecidableEq, Repr

def FailoverPolicy.default : FailoverPolicy :=
  ⟨2, .ofMillis 200, .ofSecs 10⟩

structure Failover where
  urls : List String
  active : Nat
  policy : FailoverPolicy
  deriving DecidableEq, Repr

inductive Attempt (α : Type) where
  | value (a : α)
  | failure (e : Error)
  | timedOut

/-- Where a call stands. Attempts are counted from zero. -/
inductive CallPhase (α : Type) where
  | ready (attempt : Nat)
  | trying (attempt position : Nat)
  | resting (attempt : Nat)
  | finished (result : Except Error α)

namespace Failover

def noUrl : Error := ⟨.config, "at least one RPC URL is required"⟩

def cleaned (urls : List String) : List String :=
  (urls.filter fun u => !Text.isBlankText u).map Text.trim

def ofUrls (urls : List String) (policy : FailoverPolicy) : Except Error Failover :=
  match cleaned urls with
  | [] => .error noUrl
  | us => .ok ⟨us, 0, policy⟩

variable {α : Type}

def perUrl (f : Failover) : Nat := max f.policy.attemptsPerUrl 1

def total (f : Failover) : Nat := f.perUrl * f.urls.length

def position (f : Failover) : Nat := f.active % f.urls.length

def urlAt (f : Failover) (position : Nat) : String := (f.urls[position]?).getD ""

def activeUrl (f : Failover) : String := f.urlAt f.position

/-- Move on from a position, unless somebody else has done so. -/
def rotate (f : Failover) (position : Nat) : Failover :=
  if f.active = position then { f with active := (position + 1) % f.urls.length } else f

def timeoutError (f : Failover) (what : String) : Error :=
  ⟨.rpc, what ++ " timed out after " ++ f.policy.attemptTimeout.text⟩

def start (f : Failover) (attempt : Nat) : CallPhase α :=
  .trying attempt f.position

def retry (f : Failover) (attempt position : Nat) (e : Error) : CallPhase α × Failover :=
  if (attempt + 1) % f.perUrl = 0 then
    (if attempt + 1 < f.total then .ready (attempt + 1) else .finished (.error e),
      f.rotate position)
  else (.resting (attempt + 1), f)

def proceed (f : Failover) (what : String) (attempt position : Nat) :
    Attempt α → CallPhase α × Failover
  | .value a => (.finished (.ok a), f)
  | .failure e =>
    if e.isTransient then f.retry attempt position e else (.finished (.error e), f)
  | .timedOut => f.retry attempt position (f.timeoutError what)

/-- The attempts of a call from one on, when no other call runs and `outcome` tells how each goes;
at most `left` of them. -/
def attemptsFrom (what : String) (outcome : Nat → String → Attempt α) :
    Nat → Nat → Failover → Except Error α × Failover
  | 0, _, f => (.error (f.timeoutError what), f)
  | left + 1, attempt, f =>
    match f.proceed what attempt f.position (outcome attempt f.activeUrl) with
    | (.finished r, f) => (r, f)
    | (_, f) => attemptsFrom what outcome left (attempt + 1) f

def callAlone (f : Failover) (what : String) (outcome : Nat → String → Attempt α) :
    Except Error α × Failover :=
  attemptsFrom what outcome f.total 0 f

end Failover
end BridgeNotifier
