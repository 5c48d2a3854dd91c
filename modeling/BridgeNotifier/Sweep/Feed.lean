import BridgeNotifier.Lock
import BridgeNotifier.Sweep.Scan
import BridgeNotifier.Sweep.Setup
set_option autoImplicit false

namespace BridgeNotifier

/-- The rows a page had, the id of its last one, and the sends it started. -/
structure FeedPage where
  rows : UInt64
  lastId : Option UInt64
  dispatched : UInt64
  deriving DecidableEq, Repr

namespace Setup

variable (s : Setup)

def depositPage (last : UInt64) : Routine FeedPage := do
  let rows ← Routine.records (.depositsAfter last s.pageSize)
  let sent ← ExceptT.lift
    (offerAll s.dispatcher (rows.map fun r => { deposit := r.2, status := .created }))
  return ⟨UInt64.ofNat rows.length, rows.getLast?.map Prod.fst, sent⟩

def announceClaims : List (UInt64 × Claim) → Routine UInt64
  | [] => return 0
  | (_, c) :: rows => do
    let sent ←
      match ← Routine.records (.deposit c.originNetwork c.depositCount) with
      | none => pure false
      | some d =>
        ExceptT.lift (s.dispatcher.offer { deposit := d, status := .claimed, claim := some c })
    let rest ← announceClaims rows
    return (if sent then 1 else 0) + rest

def claimPage (last : UInt64) : Routine FeedPage := do
  let rows ← Routine.records (.claimsAfter last s.pageSize)
  let sent ← s.announceClaims rows
  return ⟨UInt64.ofNat rows.length, rows.getLast?.map Prod.fst, sent⟩

def feedPage : Feed → UInt64 → Routine FeedPage
  | .deposits => s.depositPage
  | .claims => s.claimPage

/-- One page after an id. The watermark moves with every page; a page that is not full is the
last. -/
def feedRound (f : Feed) (last dispatched : UInt64) : Routine (UInt64 × UInt64) := do
  let page ← s.feedPage f last
  Routine.measure (.page f.name)
  let dispatched := dispatched + page.dispatched
  let last ←
    match page.lastId with
    | some id => do
      let _ ← Checkpoint.advance s.config.namespaceName f.watermark id
      pure id
    | none => pure last
  if page.rows < s.pageSize.toUInt64 then return (last, dispatched)
  Routine.ofProgram (Program.loop (.feed s f last dispatched))

def latestId : Feed → Routine UInt64
  | .deposits => Routine.records .latestDepositId
  | .claims => Routine.records .latestClaimId

def sweepFeed (f : Feed) : Routine Outcome := do
  let ns := s.config.namespaceName
  match ← Checkpoint.get? ns f.watermark with
  | none =>
    let latest ← latestId f
    let _ ← Checkpoint.seed ns f.watermark latest
    return .noChange
  | some start =>
    let (last, dispatched) ← Routine.ofProgram (Program.loop (.feed s f start 0))
    if last = start then return .noChange
    Routine.measure (.checkpoint f.watermark last)
    return .advanced start last dispatched

end Setup
end BridgeNotifier
