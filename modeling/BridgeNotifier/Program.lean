import BridgeNotifier.Calls
import BridgeNotifier.Config.Settings
import BridgeNotifier.Notice.Update
set_option autoImplicit false

/-!
# Programs

What the notifier does, as data: a tree of requests to its surroundings, each with a continuation
for every reply. A program says nothing about who answers, so the same tick can run alone, be cut
short, or be interleaved with others. Loops are named, and a program that goes on with one says so
by a node of its own.
-/
namespace BridgeNotifier

structure Dispatcher where
  enabled : Bool
  bizCode : String
  rollupId : UInt32
  estimate : EstimateConfig
  namespaceName : String
  window : WindowConfig
  deriving DecidableEq, Repr

/-- A key held for a token, with the time one lease lasts. -/
structure Lease where
  key : String
  token : String
  ttl : Interval
  deriving DecidableEq, Repr

inductive Stop where
  | lease (l : Lease)
  | loop (name : String)
  deriving DecidableEq, Repr

inductive Request where
  | store (call : StoreCall)
  | chain (call : ChainCall)
  | records (call : RecordCall)
  | depth
  | chainIds
  /-- The clock of duration samples, in milliseconds. -/
  | sampleClock
  /-- The wall clock, in milliseconds. -/
  | millis
  /-- The clock of timers, in nanoseconds. -/
  | instant
  | token
  | requestId
  | send (e : Envelope)
  | measure (m : Measurement)
  | launch (d : Dispatcher) (n : Notice)
  /-- Keep a lease renewed in the background from now on. -/
  | hold (l : Lease)
  | letGo (l : Lease)
  /-- Wait for an instant; answers whether it came before the stop. -/
  | pause (instant : Nat) (stop : Stop)

namespace Request

abbrev Reply : Request → Type
  | store c => Except Error c.Answer
  | chain _ => Except Error UInt64
  | records c => Except Error c.Answer
  | depth | sampleClock | millis => UInt64
  | chainIds => ChainIds
  | instant => Nat
  | token | requestId => String
  | send _ => Except Error Unit
  | measure _ | launch .. | hold _ | letGo _ => Unit
  | pause .. => Bool

end Request

structure Scan where
  task : String
  network : UInt32
  range : BlockRange
  status : Status
  pageSize : UInt32
  dispatcher : Dispatcher
  deriving DecidableEq, Repr

structure ScanSummary where
  pages : UInt64
  matched : UInt64
  dispatched : UInt64
  deriving DecidableEq, Repr

structure Setup where
  config : Config
  transport : Bool

inductive Task where
  | maturity
  | batch (role : Role)
  | feed (feed : Feed)
  deriving DecidableEq, Repr

/-- A loop at the point where its next round begins. -/
inductive Loop where
  | scan (s : Scan) (offset : UInt64) (summary : ScanSummary)
  | feed (s : Setup) (f : Feed) (last dispatched : UInt64)
  | renewal (l : Lease) (deadline : Nat)
  | periodic (s : Setup) (t : Task) (interval : Interval) (deadline : Nat)

abbrev Loop.Result : Loop → Type
  | .scan .. => Except Error ScanSummary
  | .feed .. => Except Error (UInt64 × UInt64)
  | .renewal .. | .periodic .. => Unit

inductive Program (α : Type) where
  | done (a : α)
  | ask (r : Request) (k : r.Reply → Program α)
  | call (l : Loop) (k : l.Result → Program α)

namespace Program

variable {α β γ : Type}

def bind : Program α → (α → Program β) → Program β
  | done a, f => f a
  | ask r k, f => ask r fun x => (k x).bind f
  | call l k, f => call l fun x => (k x).bind f

instance : Monad Program where
  pure := done
  bind := bind

theorem bind_done (p : Program α) : p.bind done = p := by
  induction p with
  | done a => rfl
  | ask r k ih => simp only [bind, ih]
  | call l k ih => simp only [bind, ih]

theorem bind_assoc (p : Program α) (f : α → Program β) (g : β → Program γ) :
    (p.bind f).bind g = p.bind fun a => (f a).bind g := by
  induction p with
  | done a => rfl
  | ask r k ih => simp only [bind, ih]
  | call l k ih => simp only [bind, ih]

instance : LawfulMonad Program :=
  LawfulMonad.mk' Program
    (fun p => bind_done p)
    (fun _ _ => rfl)
    (fun p f g => bind_assoc p f g)

def request (r : Request) : Program r.Reply :=
  ask r done

def loop (l : Loop) : Program l.Result :=
  call l done

end Program

abbrev Routine := ExceptT Error Program

namespace Routine

def ofProgram {α : Type} (p : Program (Except Error α)) : Routine α :=
  ExceptT.mk p

def store (c : StoreCall) : Routine c.Answer :=
  ofProgram (Program.request (.store c))

def chain (c : ChainCall) : Routine UInt64 :=
  ofProgram (Program.request (.chain c))

def records (c : RecordCall) : Routine c.Answer :=
  ofProgram (Program.request (.records c))

def measure (m : Measurement) : Routine Unit :=
  ExceptT.lift (Program.request (.measure m))

end Routine
end BridgeNotifier
