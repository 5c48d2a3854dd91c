import BridgeNotifier.Error
set_option autoImplicit false

namespace BridgeNotifier

structure ChainIdLists where
  networks : List UInt32
  chainIds : List UInt64
  standardIds : List UInt64
  innerIds : List UInt64
  deriving DecidableEq, Repr

structure ChainIds where
  ofNetwork : List (UInt32 × UInt64)
  /-- Pairs of a standard and an inner id. -/
  renamed : List (UInt64 × UInt64)
  deriving DecidableEq, Repr

inductive ChainIds.Problem where
  | networkLengths (networks chainIds : Nat)
  | renamedLengths (standard inner : Nat)
  | repeated (id : Nat) (list : String)
  deriving DecidableEq, Repr

namespace ChainIds

def Problem.text : Problem → String
  | .networkLengths n c =>
    "network ids (" ++ toString n ++ ") and chain ids (" ++ toString c ++ ") differ in length"
  | .renamedLengths s i =>
    "standard chain ids (" ++ toString s ++ ") and inner chain ids (" ++ toString i ++
      ") differ in length"
  | .repeated id list => "duplicate entry " ++ toString id ++ " in " ++ list

def Problem.toError (p : Problem) : Error :=
  ⟨.config, p.text⟩

def firstRepeated {α : Type} [BEq α] : List α → List α → Option α
  | _, [] => none
  | seen, x :: xs => if seen.contains x then some x else firstRepeated (x :: seen) xs

def empty : ChainIds := ⟨[], []⟩

/-- Paired lists must agree in length, and no network, standard or inner id may repeat. -/
def ofLists (lists : ChainIdLists) : Except Problem ChainIds := do
  if lists.networks.length ≠ lists.chainIds.length then
    throw (.networkLengths lists.networks.length lists.chainIds.length)
  if lists.standardIds.length ≠ lists.innerIds.length then
    throw (.renamedLengths lists.standardIds.length lists.innerIds.length)
  if let some n := firstRepeated [] lists.networks then
    throw (.repeated n.toNat "network ids")
  if let some n := firstRepeated [] lists.standardIds then
    throw (.repeated n.toNat "standard chain ids")
  if let some n := firstRepeated [] lists.innerIds then
    throw (.repeated n.toNat "inner chain ids")
  return ⟨lists.networks.zip lists.chainIds, lists.standardIds.zip lists.innerIds⟩

def standardOfNetwork? (t : ChainIds) (network : UInt32) : Option UInt64 :=
  t.ofNetwork.lookup network

def inner (t : ChainIds) (standard : UInt64) : UInt64 :=
  (t.renamed.lookup standard).getD standard

def standard (t : ChainIds) (inner : UInt64) : UInt64 :=
  ((t.renamed.map Prod.swap).lookup inner).getD inner

def external? (t : ChainIds) (network : UInt32) : Option UInt64 :=
  (t.standardOfNetwork? network).map t.inner

def sameEntries {α β : Type} [BEq α] [BEq β] (xs ys : List (α × β)) : Bool :=
  xs.length == ys.length && xs.all fun e => ys.lookup e.1 == some e.2

/-- Two tables translate every id alike; the order of their entries does not count. -/
def same (t u : ChainIds) : Bool :=
  sameEntries t.ofNetwork u.ofNetwork && sameEntries t.renamed u.renamed

end ChainIds
end BridgeNotifier
