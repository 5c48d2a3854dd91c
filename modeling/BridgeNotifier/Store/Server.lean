import BridgeNotifier.Store.Memory
set_option autoImplicit false

/-!
# A key-value server

The commands the shared store sends to a server, and a server that answers them: texts and lists of
texts under keys, some of which end at a millisecond of its clock.
-/
namespace BridgeNotifier

inductive ServerCommand where
  | setIfFree (key text : String) (ttl : Nat)
  | extendIfHeld (key text : String) (ttl : Nat)
  | deleteIfHeld (key text : String)
  | get (key : String)
  | set (key text : String)
  | pushHead (key text : String)
  | popTail (key : String)
  | length (key : String)
  deriving DecidableEq, Repr

inductive ServerReply where
  | nil
  | status (s : String)
  | int (n : Int)
  | text (s : String)
  | failure (message : String)
  deriving DecidableEq, Repr

namespace ServerCommand

def extendScript : String :=
  "\nif redis.call(\"GET\", KEYS[1]) == ARGV[1] then\n  return redis.call(\"PEXPIRE\", KEYS[1], ARGV[2])\nelse\n  return 0\nend\n"

def deleteScript : String :=
  "\nif redis.call(\"GET\", KEYS[1]) == ARGV[1] then\n  return redis.call(\"DEL\", KEYS[1])\nelse\n  return 0\nend\n"

/-- A command in words. Scripts are run whole, with one key and their arguments. -/
def words : ServerCommand → List String
  | setIfFree key text ttl => ["SET", key, text, "NX", "PX", Text.Numeral.decimal ttl]
  | extendIfHeld key text ttl => ["EVAL", extendScript, "1", key, text, Text.Numeral.decimal ttl]
  | deleteIfHeld key text => ["EVAL", deleteScript, "1", key, text]
  | get key => ["GET", key]
  | set key text => ["SET", key, text]
  | pushHead key text => ["LPUSH", key, text]
  | popTail key => ["RPOP", key]
  | length key => ["LLEN", key]

end ServerCommand

inductive Stored where
  | text (s : String)
  | list (items : List String)
  deriving DecidableEq, Repr

structure ServerEntry where
  stored : Stored
  /-- The millisecond from which on the key is gone. -/
  ends : Option Nat
  deriving DecidableEq, Repr

abbrev Server := String → Option ServerEntry

namespace Server

def empty : Server := fun _ => none

def wrongType : ServerReply :=
  .failure "WRONGTYPE Operation against a key holding the wrong kind of value"

def entry? (s : Server) (now : Nat) (key : String) : Option ServerEntry :=
  (s key).filter fun e => e.ends.all (now < ·)

def stored? (s : Server) (now : Nat) (key : String) : Option Stored :=
  (s.entry? now key).map ServerEntry.stored

def put (s : Server) (key : String) (entry : Option ServerEntry) : Server :=
  fun k => if k = key then entry else s k

def run (now : Nat) (s : Server) : ServerCommand → ServerReply × Server
  | .setIfFree key text ttl =>
    match s.stored? now key with
    | some _ => (.nil, s)
    | none => (.status "OK", s.put key (some ⟨.text text, some (now + ttl)⟩))
  | .extendIfHeld key text ttl =>
    match s.stored? now key with
    | some (.text held) =>
      if held = text then (.int 1, s.put key (some ⟨.text held, some (now + ttl)⟩))
      else (.int 0, s)
    | some (.list _) => (wrongType, s)
    | none => (.int 0, s)
  | .deleteIfHeld key text =>
    match s.stored? now key with
    | some (.text held) => if held = text then (.int 1, s.put key none) else (.int 0, s)
    | some (.list _) => (wrongType, s)
    | none => (.int 0, s)
  | .get key =>
    match s.stored? now key with
    | some (.text held) => (.text held, s)
    | some (.list _) => (wrongType, s)
    | none => (.nil, s)
  | .set key text => (.status "OK", s.put key (some ⟨.text text, none⟩))
  | .pushHead key text =>
    match s.stored? now key with
    | some (.text _) => (wrongType, s)
    | some (.list items) =>
      (.int (items.length + 1),
        s.put key (some ⟨.list (text :: items), (s.entry? now key).bind ServerEntry.ends⟩))
    | none => (.int 1, s.put key (some ⟨.list [text], none⟩))
  | .popTail key =>
    match s.stored? now key with
    | some (.text _) => (wrongType, s)
    | some (.list items) =>
      match items.getLast? with
      | some last =>
        (.text last, s.put key
          (if items.length = 1 then none
            else some ⟨.list items.dropLast, (s.entry? now key).bind ServerEntry.ends⟩))
      | none => (.nil, s)
    | none => (.nil, s)
  | .length key =>
    match s.stored? now key with
    | some (.text _) => (wrongType, s)
    | some (.list items) => (.int items.length, s)
    | none => (.int 0, s)

end Server
end BridgeNotifier
