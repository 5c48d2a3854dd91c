import BridgeNotifier.Metrics
import BridgeNotifier.Program
import BridgeNotifier.Records.Table
import BridgeNotifier.Reload
import BridgeNotifier.Store.Memory
set_option autoImplicit false

/-!
# Scripted surroundings

A store, a chain, record tables and a transport that do what they are told, so that programs can be
run on them one request at a time.
-/
namespace BridgeNotifier.Simulation

inductive ChainQuestion where
  | head
  | committed
  | verified
  | lastBlock
  deriving DecidableEq, Repr

def ChainQuestion.of : ChainCall → ChainQuestion
  | .head => .head
  | .committed => .committed
  | .verified => .verified
  | .lastBlock _ => .lastBlock

structure Chain where
  head : UInt64
  committed : UInt64
  verified : UInt64
  lastBlocks : List (UInt64 × UInt64)
  unavailable : Bool
  /-- The milliseconds every call takes. -/
  delay : Nat
  failures : List (ChainQuestion × Error)
  calls : Nat

namespace Chain

def initial : Chain := ⟨0, 0, 0, [], false, 0, [], 0⟩

def refused : Error := ⟨.rpc, "connection refused"⟩

def takeFailure (q : ChainQuestion) :
    List (ChainQuestion × Error) → Option (Error × List (ChainQuestion × Error))
  | [] => none
  | f :: fs =>
    if f.1 = q then some (f.2, fs) else (takeFailure q fs).map fun (e, rest) => (e, f :: rest)

def value (c : Chain) : ChainCall → Except Error UInt64
  | .head => .ok c.head
  | .committed => .ok c.committed
  | .verified => .ok c.verified
  | .lastBlock batch =>
    match c.lastBlocks.lookup batch with
    | some n => .ok n
    | none => .error (ChainCall.emptyBatch batch)

def call (c : Chain) (q : ChainCall) : Except Error UInt64 × Chain :=
  let c := { c with calls := c.calls + 1 }
  if c.unavailable then (.error refused, c)
  else
    match takeFailure (.of q) c.failures with
    | some (e, rest) => (.error e, { c with failures := rest })
    | none => (c.value q, c)

end Chain

structure Records where
  table : RecordTable
  failing : Bool
  /-- After so many more calls, one fails. -/
  failAfter : Option Nat
  calls : List RecordCall

namespace Records

def initial (table : RecordTable) : Records := ⟨table, false, none, []⟩

def down : Error := ⟨.records, "database is down"⟩
def interrupted : Error := ⟨.records, "query interrupted"⟩

def call (r : Records) (c : RecordCall) : Except Error c.Answer × Records :=
  let r := { r with calls := c :: r.calls }
  if r.failing then (.error down, r)
  else
    match r.failAfter with
    | some 0 => (.error interrupted, { r with failAfter := none })
    | some (n + 1) => (.ok (r.table.answer c), { r with failAfter := some n })
    | none => (.ok (r.table.answer c), r)

end Records

structure World where
  /-- The clock of timers, in nanoseconds. -/
  now : Nat
  store : FaultyStore
  chain : Chain
  records : Records
  depth : Live UInt64
  chainIds : Live ChainIds
  /-- The clock of duration samples, in milliseconds. -/
  sampleClock : UInt64
  millis : UInt64
  transportFailing : Bool
  sent : List Envelope
  metrics : Metrics
  tokens : Nat

namespace World

/-- An instant in November 2025 and later than every deposit that is not dated into the future. -/
def someMillis : UInt64 := 1764000000000

def initial (depth : UInt64) (chainIds : ChainIds) (table : RecordTable) : World where
  now := 0
  store := .empty
  chain := .initial
  records := .initial table
  depth := ⟨depth⟩
  chainIds := ⟨chainIds⟩
  sampleClock := 0
  millis := someMillis
  transportFailing := false
  sent := []
  metrics := []
  tokens := 0

def sendFailure : Error := ⟨.transport, "recording transport set to fail"⟩

/-- The reply to a request that is answered at once. Background work is left to a scheduler. -/
def reply (w : World) : (r : Request) → r.Reply × World
  | .store c =>
    let (a, store) := w.store.call w.now c
    (a, { w with store := store })
  | .chain c =>
    let (a, chain) := w.chain.call c
    (a, { w with chain := chain })
  | .records c =>
    let (a, records) := w.records.call c
    (a, { w with records := records })
  | .depth => (w.depth.value, w)
  | .chainIds => (w.chainIds.value, w)
  | .sampleClock => (w.sampleClock, w)
  | .millis => (w.millis, w)
  | .instant => (w.now, w)
  | .token => ("replica-" ++ Text.Numeral.decimal w.tokens, { w with tokens := w.tokens + 1 })
  | .requestId => (Text.Numeral.decimal w.sent.length, w)
  | .send e =>
    (if w.transportFailing then .error sendFailure else .ok (), { w with sent := e :: w.sent })
  | .measure m => ((), { w with metrics := w.metrics.record m })
  | .launch _ _ => ((), w)
  | .hold _ => ((), w)
  | .letGo _ => ((), w)
  | .pause instant _ => (instant ≤ w.now, w)

def breaksOff (w : World) : Request → Bool
  | .store c => w.store.breaksOff w.now c
  | _ => false

end World
end BridgeNotifier.Simulation
