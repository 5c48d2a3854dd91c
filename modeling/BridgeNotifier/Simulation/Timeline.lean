import BridgeNotifier.Failover
set_option autoImplicit false

namespace BridgeNotifier.Simulation

structure ScriptedAttempt where
  delay : Nat
  result : Except Error String
  deriving Repr

structure Timeline where
  now : Nat
  failover : Failover
  /-- What each endpoint does next; the last entry repeats. -/
  script : List (String × List ScriptedAttempt)
  attempts : List (Nat × String × String)

inductive Waiting where
  | trying (attempt position : Nat) (arrives : Nat) (result : Except Error String) (expires : Nat)
  | resting (attempt wakes : Nat)
  | finished (result : Except Error String)

namespace Timeline

def take (t : Timeline) (url : String) : ScriptedAttempt × Timeline :=
  match t.script.lookup url with
  | some (a :: b :: rest) =>
    (a, { t with script := (url, b :: rest) :: t.script.filter fun e => e.1 != url })
  | some [a] => (a, t)
  | _ => (⟨0, .ok url⟩, t)

def after (t : Timeline) (d : Interval) : Nat :=
  Interval.nextMilli (t.now * 1000000 + d.nanos) / 1000000

def run (what : String) : Nat → CallPhase String → Timeline → Waiting × Timeline
  | 0, _, t => (.finished (.error (t.failover.timeoutError what)), t)
  | fuel + 1, phase, t =>
    match phase with
    | .finished r => (.finished r, t)
    | .resting attempt =>
      let wakes := t.after t.failover.policy.retryDelay
      if wakes ≤ t.now then run what fuel (.ready attempt) t else (.resting attempt wakes, t)
    | .ready attempt => run what fuel (t.failover.start attempt) t
    | .trying attempt position =>
      let url := t.failover.urlAt position
      let (a, t) := t.take url
      let t := { t with attempts := (t.now, what, url) :: t.attempts }
      let expires := t.after t.failover.policy.attemptTimeout
      if a.delay = 0 then
        let (phase, f) := t.failover.proceed what attempt position
          (match a.result with
          | .ok v => .value v
          | .error e => .failure e)
        run what fuel phase { t with failover := f }
      else if expires ≤ t.now then
        let (phase, f) := t.failover.proceed what attempt position .timedOut
        run what fuel phase { t with failover := f }
      else (.trying attempt position (t.now + a.delay) a.result expires, t)

/-- Look at a call that waits. A result that comes when the time is over still counts. -/
def look (what : String) (fuel : Nat) (w : Waiting) (t : Timeline) : Waiting × Timeline :=
  match w with
  | .finished r => (.finished r, t)
  | .resting attempt wakes =>
    if wakes ≤ t.now then run what fuel (.ready attempt) t else (w, t)
  | .trying attempt position arrives result expires =>
    if arrives ≤ t.now then
      let (phase, f) := t.failover.proceed what attempt position
        (match result with
        | .ok v => .value v
        | .error e => .failure e)
      run what fuel phase { t with failover := f }
    else if expires ≤ t.now then
      let (phase, f) := t.failover.proceed what attempt position .timedOut
      run what fuel phase { t with failover := f }
    else (w, t)

def wakes? : Waiting → Option Nat
  | .finished _ => none
  | .resting _ wakes => some wakes
  | .trying _ _ arrives _ expires => some (min arrives expires)

def bound (t : Timeline) : Nat := 4 * t.failover.total + 4

def call (what : String) (t : Timeline) : Except Error String × Timeline :=
  let rec go : Nat → Waiting → Timeline → Except Error String × Timeline
    | 0, _, t => (.error (t.failover.timeoutError what), t)
    | n + 1, w, t =>
      match w, wakes? w with
      | .finished r, _ => (r, t)
      | _, none => go n w t
      | _, some instant =>
        let t := { t with now := max t.now instant }
        let (w, t) := look what t.bound w t
        go n w t
  let (w, t) := run what t.bound (.ready 0) t
  go t.bound w t

/-- Two calls at the same time. In every other round the second one is looked at first. -/
def callBoth (first second : String) (t : Timeline) :
    (Except Error String × Except Error String) × Timeline :=
  let rec go : Nat → Bool → Waiting → Waiting → Timeline →
      (Except Error String × Except Error String) × Timeline
    | 0, _, _, _, t =>
      ((.error (t.failover.timeoutError first), .error (t.failover.timeoutError second)), t)
    | n + 1, swapped, v, w, t =>
      match v, w with
      | .finished r, .finished s => ((r, s), t)
      | v, w =>
        let instants := (wakes? v).toList ++ (wakes? w).toList
        let t := { t with now := max t.now (instants.min?.getD t.now) }
        if swapped then
          let (w, t) := look second t.bound w t
          let (v, t) := look first t.bound v t
          go n false v w t
        else
          let (v, t) := look first t.bound v t
          let (w, t) := look second t.bound w t
          go n true v w t
  let (v, t) := run first t.bound (.ready 0) t
  let (w, t) := run second t.bound (.ready 0) t
  go (2 * t.bound) true v w t

end Timeline
end BridgeNotifier.Simulation
