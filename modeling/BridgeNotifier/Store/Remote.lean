import BridgeNotifier.Net.Url
import BridgeNotifier.Store.Server
import BridgeNotifier.Text.Characters
set_option autoImplicit false

namespace BridgeNotifier
open Text

namespace StoreCall

def leaseMillis (ttl : Interval) : Nat := max ttl.millis 1

def command : StoreCall → ServerCommand
  | tryLock key token ttl => .setIfFree key token (leaseMillis ttl)
  | extendLock key token ttl => .extendIfHeld key token (leaseMillis ttl)
  | releaseLock key token => .deleteIfHeld key token
  | getInt key => .get key
  | setInt key value => .set key (Numeral.decimal value.toNat)
  | push key timestamp => .pushHead key (Numeral.decimal timestamp.toNat)
  | popOldest key => .popTail key
  | length key => .length key

end StoreCall

namespace RemoteStore

def unexpected : Error := ⟨.keyValue, "unexpected reply"⟩

/-- A decimal number below 0x10000000000000000, which a plus sign may precede. -/
def word? (s : String) : Option UInt64 :=
  let digits :=
    match s.toList with
    | '+' :: cs => cs
    | cs => cs
  if digits.isEmpty then none
  else ((Numeral.value? 10 digits).filter (· < 0x10000000000000000)).map UInt64.ofNat

def word : ServerReply → Except Error UInt64
  | .int n => .ok (UInt64.ofInt n)
  | .text s | .status s =>
    match word? s with
    | some n => .ok n
    | none => .error unexpected
  | .nil => .error unexpected
  | .failure m => .error ⟨.keyValue, m⟩

def optionalWord : ServerReply → Except Error (Option UInt64)
  | .nil => .ok none
  | r => (word r).map some

def wasSet : ServerReply → Except Error Bool
  | .nil => .ok false
  | .failure m => .error ⟨.keyValue, m⟩
  | _ => .ok true

def counted : ServerReply → Except Error Bool
  | .int n => .ok (0 < n)
  | .text s | .status s =>
    match s.toList with
    | '-' :: cs =>
      match Numeral.value? 10 cs with
      | some n => if cs.isEmpty ∨ 0x8000000000000000 < n then .error unexpected else .ok false
      | none => .error unexpected
    | _ =>
      match word? s with
      | some n => if n.toNat < 0x8000000000000000 then .ok (0 < n) else .error unexpected
      | none => .error unexpected
  | .nil => .error unexpected
  | .failure m => .error ⟨.keyValue, m⟩

/-- What the reply to its command answers a call. -/
def answer : (c : StoreCall) → ServerReply → Except Error c.Answer
  | .tryLock .., r => wasSet r
  | .extendLock .., r | .releaseLock .., r => counted r
  | .getInt _, r => optionalWord r
  | .setInt .., .failure m => .error ⟨.keyValue, m⟩
  | .setInt .., _ => .ok ()
  | .push .., r | .length _, r => word r
  | .popOldest key, r => do
    match ← optionalWord r with
    | some n => return n
    | none => throw (Memory.emptyList key)

def call (now : Nat) (s : Server) (c : StoreCall) : Except Error c.Answer × Server :=
  let (reply, s) := s.run now c.command
  (answer c reply, s)

inductive UrlProblem where
  | blank
  | malformed
  | noHost
  | noPath
  | secured
  | database
  | version
  deriving DecidableEq, Repr

namespace UrlProblem

def text : UrlProblem → String
  | .blank => "redis url is empty"
  | .malformed => "Redis URL did not parse- InvalidClientConfig"
  | .noHost => "Missing hostname- InvalidClientConfig"
  | .noPath => "Missing path- InvalidClientConfig"
  | .secured => "can't connect with TLS, the feature is not enabled- InvalidClientConfig"
  | .database => "Invalid database number- InvalidClientConfig"
  | .version => "Invalid protocol version- InvalidClientConfig"

def toError (p : UrlProblem) : Error := ⟨.config, p.text⟩

end UrlProblem

def isDatabase (cs : List Char) : Bool :=
  let (bound, digits) :=
    match cs with
    | '-' :: ds => (0x8000000000000000, ds)
    | '+' :: ds => (0x7FFFFFFFFFFFFFFF, ds)
    | ds => (0x7FFFFFFFFFFFFFFF, ds)
  !digits.isEmpty && ((Numeral.value? 10 digits).filter (· ≤ bound)).isSome

def database (u : Net.Url) : List Char :=
  ((u.path.toList.dropWhile (· == '/')).reverse.dropWhile (· == '/')).reverse

def checkVersion (u : Net.Url) : Except UrlProblem Unit :=
  match u.queryMember? "protocol" with
  | none | some "2" | some "resp2" | some "3" | some "resp3" => .ok ()
  | _ => .error .version

def checkHosted (u : Net.Url) : Except UrlProblem Unit := do
  if u.host.isNone then throw .noHost
  if u.scheme == "rediss" || u.scheme == "valkeys" then throw .secured
  if !(database u).isEmpty && !isDatabase (database u) then throw .database
  checkVersion u

def checkLocal (u : Net.Url) : Except UrlProblem Unit := do
  if (u.host.any (· != "localhost")) || u.path.toList.head? != some '/' then throw .noPath
  if (u.queryMember? "db").any fun db => !isDatabase db.toList then throw .database
  checkVersion u

def checkUrl (url : String) : Except UrlProblem Unit := do
  if isBlankText url then throw .blank
  match Net.Url.parse url with
  | .error _ => throw .malformed
  | .ok u =>
    if ["redis", "rediss", "valkey", "valkeys"].contains u.scheme then checkHosted u
    else if ["redis+unix", "valkey+unix", "unix"].contains u.scheme then checkLocal u
    else throw .malformed

def noServer : Error := ⟨.keyValue, "redis connect timed out"⟩

def connectSilent (url : String) : Error :=
  match checkUrl url with
  | .error p => p.toError
  | .ok () => noServer

end RemoteStore
end BridgeNotifier
