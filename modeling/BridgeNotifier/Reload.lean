import BridgeNotifier.Config.Load
set_option autoImplicit false

namespace BridgeNotifier

structure Live (α : Type) where
  value : α
  deriving Repr

namespace Live

variable {α : Type}

/-- Publish a value. Tells whether it differs from the one before. -/
def publish (same : α → α → Bool) (l : Live α) (value : α) : Bool × Live α :=
  if same l.value value then (false, l) else (true, ⟨value⟩)

theorem publish_fst (same : α → α → Bool) (l : Live α) (value : α) :
    (l.publish same value).1 = !same l.value value := by
  unfold publish
  split <;> simp_all

end Live

structure LiveValues where
  depth : Live UInt64
  chainIds : Live ChainIds

namespace LiveValues

def ofConfig (c : Config) : Except ChainIds.Problem LiveValues := do
  return ⟨⟨c.maturity.confirmations⟩, ⟨← ChainIds.ofLists c.chainIds⟩⟩

/-- Publish the values of new settings. Tells whether either of them changed. -/
def publish (v : LiveValues) (depth : UInt64) (chainIds : ChainIds) : Bool × LiveValues :=
  let d := v.depth.publish (· == ·) depth
  let c := v.chainIds.publish ChainIds.same chainIds
  (d.1 || c.1, ⟨d.2, c.2⟩)

/-- Read the file again. Tells whether a value changed. -/
def reload (yaml : String → Option Form) (env : Placeholder.Environment) (path : String)
    (file : Option ByteArray) (v : LiveValues) : Except Error Bool × LiveValues :=
  match Config.ofFile yaml env path file with
  | .error e => (.error e.toError, v)
  | .ok config =>
    match ChainIds.ofLists config.chainIds with
    | .error p => (.error p.toError, v)
    | .ok table =>
      let (changed, v) := v.publish config.maturity.confirmations table
      (.ok changed, v)

end LiveValues

/-- A file that is read again at fixed intervals; instants are in milliseconds. -/
structure Watch where
  next : Nat
  interval : Nat
  deriving DecidableEq, Repr

namespace Watch

def start (now interval : Nat) : Watch := ⟨now + interval, interval⟩

def due (w : Watch) (now : Nat) : Nat → Nat × Watch
  | 0 => (0, w)
  | fuel + 1 =>
    if w.next ≤ now then
      let (n, w') := due { w with next := w.next + w.interval } now fuel
      (n + 1, w')
    else (0, w)

end Watch

namespace Simulation

inductive FileCommand where
  | write (bytes : Option ByteArray)
  | reload
  | watch (interval : Nat)
  | advance (millis : Nat)
  | cancel
  | nothing

structure FileSession where
  env : Placeholder.Environment
  path : String
  values : LiveValues
  file : Option ByteArray
  now : Nat
  watching : Option Watch

namespace FileSession

def run (yaml : String → Option Form) (s : FileSession) :
    FileCommand → Option (Except Error Bool) × FileSession
  | .write bytes => (none, { s with file := bytes })
  | .reload =>
    let (r, values) := s.values.reload yaml s.env s.path s.file
    (some r, { s with values := values })
  | .watch interval => (none, { s with watching := some (.start s.now interval) })
  | .advance millis =>
    let now := s.now + millis
    match s.watching with
    | none => (none, { s with now := now })
    | some w =>
      let (n, w) := w.due now (now + 1)
      let reloaded := n.fold (fun _ _ v => (v.reload yaml s.env s.path s.file).2) s.values
      (none, { s with now := now, watching := some w, values := reloaded })
  | .cancel => (none, { s with watching := none })
  | .nothing => (none, s)

end FileSession
end Simulation
end BridgeNotifier
