import BridgeNotifier.Calls
set_option autoImplicit false

namespace BridgeNotifier

inductive Bound where
  | int (n : Int)
  | flag (b : Bool)
  deriving DecidableEq, Repr

structure Statement where
  sql : String
  bounds : List Bound
  deriving DecidableEq, Repr

namespace Statement

def column (table name : String) : String :=
  "\"" ++ table ++ "\".\"" ++ name ++ "\""

def depositColumns : List String :=
  ["id", "leaf_type", "network_id", "orig_net", "orig_addr", "amount", "dest_net", "dest_addr",
    "block_num", "deposit_cnt", "tx_hash", "ready_for_claim", "time_ms"]

def claimColumns : List String :=
  ["id", "network_id", "idx", "orig_net", "orig_addr", "amount", "dest_addr", "block_num",
    "tx_hash", "time_ms"]

def select (table : String) (columns : List String) : String :=
  "SELECT " ++ ", ".intercalate (columns.map (column table)) ++ " FROM \"" ++ table ++ "\""

def after (table : String) (columns : List String) (id : UInt64) (limit : UInt32) : Statement where
  sql := select table columns ++ " WHERE (" ++ column table "id" ++ " > $1) ORDER BY " ++
    column table "id" ++ " ASC LIMIT $2"
  bounds := [.int id.toNat, .int limit.toNat]

def largest (table : String) : Statement where
  sql := "SELECT max(" ++ column table "id" ++ ") FROM \"" ++ table ++ "\" LIMIT $1"
  bounds := [.int 1]

/-- The network as the database holds it: the signed number with the same bits. -/
def network (n : UInt32) : Bound := .int n.toInt32.toInt

def maturing (n : UInt32) (range : BlockRange) (limit : UInt32) (offset : UInt64) : Statement where
  sql := select "deposit" depositColumns ++ " WHERE (((" ++ column "deposit" "network_id" ++
    " = $1) AND (" ++ column "deposit" "ready_for_claim" ++ " = $2)) AND (" ++
    column "deposit" "block_num" ++ " BETWEEN $3 AND $4)) ORDER BY " ++ column "deposit" "id" ++
    " ASC LIMIT $5 OFFSET $6"
  bounds := [network n, .flag false, .int range.low.toNat, .int range.high.toNat,
    .int limit.toNat, .int offset.toNat]

def lookup (n count : UInt32) : Statement where
  sql := select "deposit" depositColumns ++ " WHERE ((" ++ column "deposit" "network_id" ++
    " = $1) AND (" ++ column "deposit" "deposit_cnt" ++ " = $2)) LIMIT $3"
  bounds := [network n, .int count.toNat, .int 1]

end Statement

namespace RecordCall

def outOfRange (what : String) (n : UInt64) : Error :=
  ⟨.records, what ++ " " ++ toString n.toNat ++ " out of range"⟩

def check (what : String) (n : UInt64) : Except Error Unit :=
  if n.toNat < 0x8000000000000000 then .ok () else .error (outOfRange what n)

def statement : RecordCall → Except Error Statement
  | maturing network range limit offset => do
    check "block_low" range.low
    check "block_high" range.high
    check "offset" offset
    return .maturing network range limit offset
  | depositsAfter id limit => do
    check "after_id" id
    return .after "deposit" Statement.depositColumns id limit
  | claimsAfter id limit => do
    check "after_id" id
    return .after "claim" Statement.claimColumns id limit
  | deposit network count => .ok (.lookup network count)
  | latestDepositId => .ok (.largest "deposit")
  | latestClaimId => .ok (.largest "claim")

def title : RecordCall → String
  | maturing .. => "deposit page query"
  | depositsAfter .. => "deposit feed query"
  | claimsAfter .. => "claim feed query"
  | deposit .. => "deposit lookup"
  | latestDepositId => "latest deposit id"
  | latestClaimId => "latest claim id"

def timeoutError (c : RecordCall) (bound : Interval) : Error :=
  ⟨.records, c.title ++ " timed out after " ++ bound.text⟩

def noConnection : Error := ⟨.records, "Timed out in bb8"⟩

/-- What comes of a question when no connection comes free: the bound on connections or the one on
the whole question, whichever is passed first. -/
def withoutDatabase (c : RecordCall) (connecting bound : Interval) : Error :=
  match c.statement with
  | .error e => e
  | .ok _ => if bound.nanos < connecting.nanos then c.timeoutError bound else noConnection

end RecordCall

structure Migration where
  version : String
  script : String
  deriving DecidableEq, Repr

namespace Migration

def depositColumns : List (String × String) :=
  [("id", "BIGSERIAL PRIMARY KEY"), ("leaf_type", "SMALLINT NOT NULL DEFAULT 0"),
    ("network_id", "INT NOT NULL"), ("orig_net", "INT NOT NULL"), ("orig_addr", "TEXT NOT NULL"),
    ("amount", "TEXT NOT NULL"), ("dest_net", "INT NOT NULL"), ("dest_addr", "TEXT NOT NULL"),
    ("block_num", "BIGINT NOT NULL"), ("deposit_cnt", "BIGINT NOT NULL"),
    ("tx_hash", "TEXT NOT NULL"), ("ready_for_claim", "BOOLEAN NOT NULL DEFAULT FALSE"),
    ("time_ms", "BIGINT NOT NULL")]

def claimColumns : List (String × String) :=
  [("id", "BIGSERIAL PRIMARY KEY"), ("network_id", "INT NOT NULL"), ("idx", "BIGINT NOT NULL"),
    ("orig_net", "INT NOT NULL"), ("orig_addr", "TEXT NOT NULL"), ("amount", "TEXT NOT NULL"),
    ("dest_addr", "TEXT NOT NULL"), ("block_num", "BIGINT NOT NULL"), ("tx_hash", "TEXT NOT NULL"),
    ("time_ms", "BIGINT NOT NULL")]

def createTable (name : String) (columns : List (String × String)) (unique : List String) :
    String :=
  "CREATE TABLE IF NOT EXISTS " ++ name ++ " (" ++
    ", ".intercalate (columns.map fun c => c.1 ++ " " ++ c.2) ++
    ", UNIQUE (" ++ ", ".intercalate unique ++ "));"

def tables : Migration where
  version := "20240601000000"
  script := createTable "deposit" depositColumns ["network_id", "deposit_cnt"] ++
    "\nCREATE INDEX IF NOT EXISTS deposit_maturing_idx ON deposit " ++
    "(network_id, ready_for_claim, block_num);\n" ++
    createTable "claim" claimColumns ["network_id", "idx", "orig_net"]

def all : List Migration := [tables]

def pending (applied : List String) : List Migration :=
  all.filter fun m => !applied.contains m.version

def noDatabase : String := "Failed to connect for migrations: error connecting to server"

end Migration
end BridgeNotifier
