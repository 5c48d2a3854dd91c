import BridgeNotifier.Calls
import BridgeNotifier.Config.Settings
import BridgeNotifier.Failover
import BridgeNotifier.Json.Value
import BridgeNotifier.Net.Url
import BridgeNotifier.Text.Characters
set_option autoImplicit false

namespace BridgeNotifier.Quantity
open Text

inductive Problem where
  | digit
  | tooLarge
  deriving DecidableEq, Repr

def Problem.text : Problem → String
  | .digit => "invalid digit found in string"
  | .tooLarge => "number too large to fit in target type"

/-- Read digits after a number read so far. Of two problems the one met first counts. -/
def extend (acc : Nat) : List Char → Except Problem Nat
  | [] => .ok acc
  | c :: cs =>
    match Numeral.digitValue? 16 c with
    | none => .error .digit
    | some d => if acc * 16 + d < 0x10000000000000000 then extend (acc * 16 + d) cs else .error .tooLarge

def digits : List Char → Except Problem Nat
  | '+' :: c :: cs => extend 0 (c :: cs)
  | cs => extend 0 cs

def afterMark? : List Char → Option (List Char)
  | '0' :: 'x' :: cs | '0' :: 'X' :: cs => some cs
  | _ => none

def parse (raw : String) : Except Error UInt64 :=
  match afterMark? raw.toList with
  | none => .error ⟨.anomaly, "not a hex quantity: " ++ quoted raw⟩
  | some cs =>
    match digits cs with
    | .ok n => .ok (UInt64.ofNat n)
    | .error p => .error ⟨.anomaly, "bad hex quantity " ++ quoted raw ++ ": " ++ p.text⟩

def render (n : UInt64) : String :=
  "0x" ++ String.ofList (Numeral.render 16 n.toNat)

end BridgeNotifier.Quantity

namespace BridgeNotifier
open Json

structure RpcCall where
  method : String
  params : Option (List Value)

inductive RpcReply where
  | none
  | result (v : Value)

abbrev RpcNetwork := String → RpcCall → RpcReply

def RpcNetwork.silent : RpcNetwork := fun _ _ => .none

structure ChainClient where
  main : Failover
  rollup : Failover
  methods : BatchMethods

namespace ChainClient

def rpcFailure (method : String) : Error := ⟨.rpc, method⟩

def invalidUrl (url : String) (p : Net.Url.Problem) : Error :=
  ⟨.config, "invalid RPC URL " ++ url ++ ": " ++ p.text⟩

def heightMethod : String := "eth_blockNumber"
def blockMethod : String := "eth_getBlockByHash"

variable (network : RpcNetwork) (url : String)

def ask {α : Type} (method : String) (params : Option (List Value)) (read : Value → Option α) :
    Except Error α :=
  match network url ⟨method, params⟩ with
  | .none => .error (rpcFailure method)
  | .result v =>
    match read v with
    | some a => .ok a
    | none => .error (rpcFailure method)

def quantity? (v : Value) : Option UInt64 := do
  match ← v.text? with
  | s =>
    match Quantity.parse s with
    | .ok n => return n
    | .error _ => none

def hash? (v : Value) : Option String := do
  let s ← v.text?
  let digits := (Quantity.afterMark? s.toList).getD s.toList
  if digits.length = 64 ∧ (Text.Numeral.value? 16 digits).isSome then
    return "0x" ++ String.ofList (digits.map Char.toLower)
  else none

def hashes? (v : Value) : Option (List String) :=
  match v with
  | .object _ =>
    match v.get? "blocks" with
    | none => some []
    | some blocks => do (← blocks.list?).mapM hash?
  | _ => none

def blockNumber? (v : Value) : Option (Option (Option UInt64)) :=
  match v with
  | .null => some none
  | v =>
    match v.get? "number" with
    | none | some .null => some (some none)
    | some n => (quantity? n).map fun n => some (some n)

/-- The last block of a batch: its hash is looked up in the batch, its number in the block. -/
def lastBlock (method : String) (batch : UInt64) : Except Error UInt64 := do
  let hashes ← ask network url method (some [.text (Quantity.render batch)]) hashes?
  match hashes.getLast? with
  | none => throw (ChainCall.emptyBatch batch)
  | some hash =>
    match ← ask network url blockMethod (some [.text hash, .bool false]) blockNumber? with
    | none =>
      throw ⟨.anomaly, "block " ++ hash ++ " of batch " ++ toString batch.toNat ++ " not found"⟩
    | some none => throw ⟨.anomaly, "block " ++ hash ++ " is pending"⟩
    | some (some n) => return n

def method (m : BatchMethods) : ChainCall → String
  | .head => heightMethod
  | .committed => m.committed
  | .verified => m.verified
  | .lastBlock _ => m.byNumber

def attempt (m : BatchMethods) (c : ChainCall) : Except Error UInt64 :=
  match Net.Url.parse url with
  | .error p => .error (invalidUrl url p)
  | .ok _ =>
    match c with
    | .head => ask network url heightMethod none quantity?
    | .committed | .verified => do
      Quantity.parse (← ask network url (method m c) none Value.text?)
    | .lastBlock batch => lastBlock network url (method m c) batch

def call (client : ChainClient) (c : ChainCall) : Except Error UInt64 × ChainClient :=
  let outcome (_ : Nat) (url : String) : Attempt UInt64 :=
    match attempt network url client.methods c with
    | .ok n => .value n
    | .error e => .failure e
  match c with
  | .head =>
    let (r, f) := client.main.callAlone (method client.methods c) outcome
    (r, { client with main := f })
  | c =>
    let (r, f) := client.rollup.callAlone (method client.methods c) outcome
    (r, { client with rollup := f })

end ChainClient
end BridgeNotifier
