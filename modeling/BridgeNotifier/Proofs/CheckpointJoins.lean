import BridgeNotifier.Proofs.StoreKeys
import BridgeNotifier.Simulation.StoreSession
set_option autoImplicit false

/-!
# Checkpoints as joins

Seeds and advances of any watermarks, one after another on a store that answers all of them. A
watermark stands at the highest value it was ever advanced to or started at, whatever the order. One
that was never written reads as zero, but is not the same as one that stands at zero: only the
former can be seeded, and advancing either to zero leaves it as it is.
-/
namespace BridgeNotifier

/-- What can be asked of a watermark: to start at a value, or to move up to one. -/
inductive Change where
  | seed (value : UInt64)
  | raise (value : UInt64)
  deriving DecidableEq, Repr

namespace Change

def value : Change → UInt64
  | seed v | raise v => v

def takes (found : Option UInt64) : Change → Bool
  | seed _ => found.isNone
  | raise v => found.getD 0 < v

/-- What the caller is told: of a seed whether it was written, of an advance whether the number is
at the value now. -/
def answer (found : Option UInt64) : Change → Bool
  | seed _ => found.isNone
  | raise v => found.getD 0 ≤ v

def after (found : Option UInt64) (c : Change) : Option UInt64 :=
  if c.takes found then some c.value else found

def raised (cs : List Change) : List UInt64 :=
  cs.filterMap fun
    | raise v => some v
    | seed _ => none

def firstSeed? (cs : List Change) : Option UInt64 :=
  match cs.dropWhile (· = raise 0) with
  | seed v :: _ => some v
  | _ => none

/-- The number after some changes to one that was never written. -/
def settled (cs : List Change) : Option UInt64 :=
  cs.foldl after none

end Change

def IsHighest (values : List UInt64) (v : UInt64) : Prop :=
  v ∈ values ∧ ∀ x ∈ values, x ≤ v

-- The instance for lists by name: another one may go through all the words there are.
instance (values : List UInt64) (v : UInt64) : Decidable (IsHighest values v) :=
  haveI : Decidable (∀ x ∈ values, x ≤ v) := List.decidableBAll (· ≤ v) values
  inferInstanceAs (Decidable (_ ∧ _))

namespace IsHighest

variable {values : List UInt64} {v v' x : UInt64}

theorem unique (h : IsHighest values v) (h' : IsHighest values v') : v = v' :=
  UInt64.le_antisymm (h'.2 v h.1) (h.2 v' h'.1)

theorem cons_of_le (h : IsHighest values v) (le : x ≤ v) : IsHighest (x :: values) v :=
  ⟨List.mem_cons_of_mem x h.1, List.forall_mem_cons.2 ⟨le, h.2⟩⟩

theorem perm {values' : List UInt64} (h : IsHighest values v) (p : values.Perm values') :
    IsHighest values' v :=
  ⟨p.mem_iff.1 h.1, fun x hx => h.2 x (p.mem_iff.2 hx)⟩

end IsHighest

namespace Change

variable {cs : List Change} {v : UInt64}

theorem foldl_after_some (cs : List Change) (v : UInt64) :
    ∃ u, cs.foldl after (some v) = some u ∧ IsHighest (v :: raised cs) u := by
  induction cs generalizing v with
  | nil => exact ⟨v, rfl, by simp [IsHighest, raised]⟩
  | cons c cs ih =>
    cases c with
    | seed x => exact ih v
    | raise x =>
      by_cases higher : v < x
      · obtain ⟨u, stands, highest⟩ := ih x
        have above : x ≤ u := highest.2 x List.mem_cons_self
        refine ⟨u, ?_, highest.cons_of_le (UInt64.le_trans (UInt64.le_of_lt higher) above)⟩
        simpa [after, takes, value, higher] using stands
      · obtain ⟨u, stands, highest⟩ := ih v
        have above : v ≤ u := highest.2 v List.mem_cons_self
        have within : x ≤ u := UInt64.le_trans (UInt64.not_lt.1 higher) above
        refine ⟨u, by simpa [after, takes, higher] using stands, ?_⟩
        exact (highest.cons_of_le within).perm (.swap ..)

/-- Advancing to zero is all that leaves a number unwritten. -/
theorem settled_eq_none_iff : settled cs = none ↔ ∀ c ∈ cs, c = raise 0 := by
  induction cs with
  | nil => simp [settled]
  | cons c cs ih =>
    by_cases idle : c = raise 0
    · subst idle
      have same : settled (raise 0 :: cs) = settled cs := rfl
      rw [same, ih, List.forall_mem_cons]
      simp
    · have takes : c.takes none = true := by
        cases c with
        | seed v => rfl
        | raise v => simpa [takes, UInt64.pos_iff_ne_zero] using idle
      obtain ⟨u, stands, -⟩ := foldl_after_some cs c.value
      have written : settled (c :: cs) = some u := by
        rw [settled, List.foldl_cons, after, if_pos takes, stands]
      rw [written, List.forall_mem_cons]
      simp [idle]

/-- The number stands at the highest of the values it was advanced to and of its first seed. -/
theorem isHighest_settled (cs : List Change) :
    IsHighest (0 :: ((firstSeed? cs).toList ++ raised cs)) ((settled cs).getD 0) := by
  induction cs with
  | nil => simp [IsHighest, settled, firstSeed?, raised]
  | cons c cs ih =>
    cases c with
    | seed v =>
      obtain ⟨u, stands, highest⟩ := foldl_after_some cs v
      have written : settled (seed v :: cs) = some u := stands
      rw [written]
      exact highest.cons_of_le UInt64.zero_le
    | raise v =>
      -- An advance to zero writes nothing, so the first seed may still come.
      by_cases zero : v = 0
      · subst zero
        exact (ih.cons_of_le UInt64.zero_le).perm (.cons 0 List.perm_middle.symm)
      · obtain ⟨u, stands, highest⟩ := foldl_after_some cs v
        have written : settled (raise v :: cs) = some u := by
          simpa [settled, after, takes, value, UInt64.pos_iff_ne_zero, zero] using stands
        have unseeded : firstSeed? (raise v :: cs) = none := by
          simp [firstSeed?, zero]
        rw [written, unseeded]
        exact highest.cons_of_le UInt64.zero_le

theorem after_comm (found : Option UInt64) (a b : UInt64) :
    after (after found (raise a)) (raise b) = after (after found (raise b)) (raise a) := by
  simp only [after, takes, value]
  grind

theorem settled_perm {cs' : List Change} (p : cs.Perm cs')
    (raises : ∀ c ∈ cs, ∃ v, c = raise v) : settled cs = settled cs' := by
  refine p.foldl_eq' (fun c hc c' hc' found => ?_) none
  obtain ⟨a, rfl⟩ := raises c hc
  obtain ⟨b, rfl⟩ := raises c' hc'
  exact after_comm found a b

end Change

structure CheckpointCall where
  mark : Watermark
  change : Change
  deriving DecidableEq, Repr

namespace CheckpointCall

def routine (ns : String) (c : CheckpointCall) : Routine Bool :=
  match c.change with
  | .seed v => Checkpoint.seed ns c.mark v
  | .raise v => Checkpoint.advance ns c.mark v

def command (c : CheckpointCall) : Simulation.StoreCommand :=
  match c.change with
  | .seed v => .seed c.mark v
  | .raise v => .raise c.mark v

def changesOf (w : Watermark) (calls : List CheckpointCall) : List Change :=
  (calls.filter fun c => c.mark = w).map change

end CheckpointCall

theorem Watermark.key_inj {ns ns' : String} {w w' : Watermark} :
    w.key ns = w'.key ns' ↔ ns = ns' ∧ w = w' := by
  have plain : ∀ w ∈ Watermark.all, ':' ∉ w.name.toList := by decide
  constructor
  · intro same
    obtain rfl | other := eq_or_ne ns ns'
    · exact ⟨rfl, name_injective (storeKey_injective same)⟩
    · -- The longer prefix begins with the shorter one, and the rest of it, with its colon, would
      -- have to begin a name.
      rw [key, key, storeKey_eq, storeKey_eq, keyPrefix_append_eq_iff] at same
      obtain ⟨rest, longer, name⟩ | ⟨rest, longer, name⟩ := same
      · refine absurd ?_ (plain w w.mem_all)
        rw [name, String.toList_append]
        exact List.mem_append_left _ (colon_mem_of_keyPrefix other longer)
      · refine absurd ?_ (plain w' w'.mem_all)
        rw [name, String.toList_append]
        exact List.mem_append_left _ (colon_mem_of_keyPrefix other.symm longer)
  · rintro ⟨rfl, rfl⟩
    rfl

namespace Memory
open CheckpointCall

def changed (ns : String) (m : Memory) (c : CheckpointCall) : Memory :=
  if c.change.takes (m.ints (c.mark.key ns)) then
    { m with
      ints := Function.update m.ints (c.mark.key ns) (some c.change.value)
      writes := m.writes + 1 }
  else m

variable {ns key : String} {m : Memory} {w : Watermark} {c : CheckpointCall}
variable {calls : List CheckpointCall}

theorem changed_own : (m.changed ns c).ints (c.mark.key ns) =
    Change.after (m.ints (c.mark.key ns)) c.change := by
  rw [changed, Change.after]
  split
  · exact Function.update_self ..
  · rfl

theorem changed_other (other : key ≠ c.mark.key ns) : (m.changed ns c).ints key = m.ints key := by
  rw [changed]
  split
  · exact Function.update_of_ne other _ _
  · rfl

theorem changed_rest :
    (m.changed ns c).leases = m.leases ∧ (m.changed ns c).lists = m.lists := by
  unfold changed
  split <;> exact ⟨rfl, rfl⟩

theorem foldl_changed_key : (calls.foldl (changed ns) m).ints (w.key ns) =
    (changesOf w calls).foldl Change.after (m.ints (w.key ns)) := by
  induction calls generalizing m with
  | nil => rfl
  | cons c calls ih =>
    rw [List.foldl_cons, ih]
    by_cases own : c.mark = w
    · subst own
      rw [changed_own, changesOf, changesOf, List.filter_cons_of_pos (by simp)]
      rfl
    · have other : w.key ns ≠ c.mark.key ns := fun same => own (Watermark.key_inj.1 same).2.symm
      rw [changed_other other, changesOf, changesOf, List.filter_cons_of_neg (by simpa using own)]

theorem foldl_changed_other (other : ∀ c ∈ calls, key ≠ c.mark.key ns) :
    (calls.foldl (changed ns) m).ints key = m.ints key := by
  induction calls generalizing m with
  | nil => rfl
  | cons c calls ih =>
    obtain ⟨first, rest⟩ := List.forall_mem_cons.1 other
    rw [List.foldl_cons, ih rest, changed_other first]

theorem foldl_changed_rest : (calls.foldl (changed ns) m).leases = m.leases ∧
    (calls.foldl (changed ns) m).lists = m.lists := by
  induction calls generalizing m with
  | nil => exact ⟨rfl, rfl⟩
  | cons c calls ih =>
    exact ⟨ih.1.trans changed_rest.1, ih.2.trans changed_rest.2⟩

end Memory

namespace Simulation
namespace World

def withMemory (w : World) (m : Memory) : World :=
  { w with store := { w.store with memory := m } }

structure Serves (w : World) : Prop where
  available : w.store.unavailable = false
  granted : w.store.refused = []

namespace Serves

variable {w : World} {n : Nat} {ns : String} {k : Watermark}

theorem withMemory (serves : w.Serves) (m : Memory) : (w.withMemory m).Serves :=
  ⟨serves.available, serves.granted⟩

theorem reply (serves : w.Serves) (c : StoreCall) : w.reply (.store c) =
    ((w.store.memory.call w.now c).1, w.withMemory (w.store.memory.call w.now c).2) := by
  have granted : w.store.refusedKey? c = none := by
    cases c with
    | setInt key value => simp [FaultyStore.refusedKey?, serves.granted]
    | _ => rfl
  simp [World.reply, FaultyStore.call, granted, serves.available, World.withMemory]

theorem runAlone_store {α : Type} {c : StoreCall} {a : c.Answer} {m : Memory}
    {f : c.Answer → Routine α} (serves : w.Serves)
    (answered : w.store.memory.call w.now c = (.ok a, m))
    (sound : w.store.memory.breaksOff w.now c = false) :
    runAlone (n + 1) (Routine.store c >>= f).run w = runAlone n (f a).run (w.withMemory m) := by
  have replied := serves.reply c
  have sound' : w.breaksOff (.store c) = false := by
    simp [World.breaksOff, FaultyStore.breaksOff, sound]
  rw [answered] at replied
  change (if w.breaksOff (.store c) then none else
    runAlone n (ExceptT.bindCont f (w.reply (.store c)).1) (w.reply (.store c)).2) = _
  rw [sound', replied]
  rfl

theorem runAlone_get? {α : Type} {f : Option UInt64 → Routine α} (serves : w.Serves) :
    runAlone (n + 1) (Checkpoint.get? ns k >>= f).run w =
      runAlone n (f (w.store.memory.ints (k.key ns))).run w :=
  serves.runAlone_store rfl rfl

theorem runAlone_set {α : Type} {f : Unit → Routine α} {key : String} {value : UInt64}
    (serves : w.Serves) :
    runAlone (n + 1) (Routine.store (.setInt key value) >>= f).run w =
      runAlone n (f ()).run (w.withMemory { w.store.memory with
        ints := Function.update w.store.memory.ints key (some value)
        writes := w.store.memory.writes + 1 }) :=
  serves.runAlone_store (Memory.call_setInt ..) rfl

theorem runAlone_call (serves : w.Serves) (ns : String) (c : CheckpointCall) :
    runAlone 3 (c.routine ns).run w =
      some (.ok (c.change.answer (w.store.memory.ints (c.mark.key ns))),
        w.withMemory (w.store.memory.changed ns c)) := by
  obtain ⟨k, change⟩ := c
  cases change with
  | seed v =>
    simp only [CheckpointCall.routine, Checkpoint.seed]
    rw [serves.runAlone_get?]
    cases found : w.store.memory.ints (k.key ns) with
    | some v =>
      simp only [Change.answer, Memory.changed, Change.takes, found]
      rfl
    | none =>
      simp only [Option.isSome_none, Bool.false_eq_true, if_false]
      rw [serves.runAlone_set]
      simp only [Change.answer, Memory.changed, Change.takes, found]
      rfl
  | raise v =>
    simp only [CheckpointCall.routine, Checkpoint.advance, Checkpoint.get, bind_assoc, pure_bind]
    rw [serves.runAlone_get?]
    generalize found : w.store.memory.ints (k.key ns) = number
    -- Refused below the number, nothing to do at it, written above it.
    by_cases lower : v < number.getD 0
    · have lower' : ¬ number.getD 0 ≤ v := UInt64.not_le.2 lower
      have kept : ¬ number.getD 0 < v := UInt64.not_lt.2 (UInt64.le_of_lt lower)
      simp only [if_pos lower, Change.answer, Memory.changed, Change.takes, found, lower', kept,
        decide_false]
      rfl
    by_cases same : v = number.getD 0
    · have kept : ¬ number.getD 0 < v := fun higher => UInt64.lt_irrefl _ (same ▸ higher)
      have reached : number.getD 0 ≤ v := UInt64.not_lt.1 lower
      simp only [if_neg lower, if_pos same, Change.answer, Memory.changed, Change.takes, found,
        kept, reached, decide_false, decide_true]
      rfl
    · have reached : number.getD 0 ≤ v := UInt64.not_lt.1 lower
      have higher : number.getD 0 < v := UInt64.lt_of_le_of_ne reached (Ne.symm same)
      simp only [if_neg lower, if_neg same]
      rw [serves.runAlone_set]
      simp only [Change.answer, Memory.changed, Change.takes, found, higher, reached, decide_true]
      rfl

end Serves
end World

namespace StoreSession

def memory (s : StoreSession) : Memory :=
  s.world.store.memory

def withMemory (s : StoreSession) (m : Memory) : StoreSession :=
  s.inWorld (·.withMemory m)

def number? (s : StoreSession) (w : Watermark) : Option UInt64 :=
  s.memory.ints (w.key s.estimator.namespaceName)

structure Calm (s : StoreSession) : Prop where
  idle : s.scheduler.ready = []
  serves : s.world.Serves

variable {s : StoreSession} {c : CheckpointCall} {calls : List CheckpointCall} {w : Watermark}

theorem Calm.withMemory (calm : s.Calm) (m : Memory) : (s.withMemory m).Calm :=
  ⟨calm.idle, calm.serves.withMemory m⟩

theorem Calm.settle (calm : s.Calm) (n : Nat) : Scheduler.settle n s.scheduler = s.scheduler := by
  cases n with
  | zero => rfl
  | succ n => rw [Scheduler.settle, calm.idle]

theorem Calm.run_of_perform {a : StoreAnswer} {m : Memory} {command : StoreCommand} (calm : s.Calm)
    (performed : s.perform command = (a, s.withMemory m)) :
    s.run command = (a, s.withMemory m) := by
  rw [run, performed]
  simp only [(calm.withMemory m).settle]

theorem Calm.run_routine {α : Type} {n : Nat} {p : Routine α} {a : α} {m : Memory}
    {f : α → StoreAnswer} {command : StoreCommand} (calm : s.Calm)
    (performs : s.perform command = s.routine f p)
    (ends : runAlone n p.run s.world = some (.ok a, s.world.withMemory m))
    (short : n ≤ Scheduler.fuel) : s.run command = (f a, s.withMemory m) := by
  refine calm.run_of_perform ?_
  rw [performs, routine, runProgram, runAlone_mono ends short]
  rfl

theorem Calm.run_call (calm : s.Calm) (c : CheckpointCall) :
    s.run c.command = (.flag (c.change.answer (s.number? c.mark)),
      s.withMemory (s.memory.changed s.estimator.namespaceName c)) := by
  refine calm.run_routine (p := c.routine s.estimator.namespaceName) ?_
    (calm.serves.runAlone_call _ c) (by decide)
  obtain ⟨k, change⟩ := c
  cases change <;> rfl

theorem Calm.run_checkpoint? (calm : s.Calm) (w : Watermark) :
    s.run (.checkpoint? w) = (maybeNumber (s.number? w), s) := by
  have read : runAlone 2 (Checkpoint.get? s.estimator.namespaceName w).run s.world =
      some (.ok (s.number? w), s.world) := by
    rw [← bind_pure (Checkpoint.get? s.estimator.namespaceName w), calm.serves.runAlone_get?]
    rfl
  exact calm.run_routine (m := s.memory) rfl read (by decide)

theorem Calm.run_checkpoint (calm : s.Calm) (w : Watermark) :
    s.run (.checkpoint w) = (.number ((s.number? w).getD 0), s) :=
  calm.run_routine (n := 2) (m := s.memory) rfl calm.serves.runAlone_get? (by decide)

theorem Calm.run_writes (calm : s.Calm) : s.run .writes = (.count s.memory.writes, s) :=
  calm.run_of_perform (m := s.memory) rfl

/-- A call in its turn: the number that it found, and what the caller was told. -/
structure Entry where
  call : CheckpointCall
  found : Option UInt64
  answer : StoreAnswer

def Entry.writes (t : Entry) : Bool :=
  t.call.change.takes t.found

def journal : List CheckpointCall → StoreSession → List Entry
  | [], _ => []
  | c :: calls, s =>
    ⟨c, s.number? c.mark, (s.run c.command).1⟩ :: journal calls (s.run c.command).2

def afterCalls (s : StoreSession) (calls : List CheckpointCall) : StoreSession :=
  calls.foldl (fun s c => (s.run c.command).2) s

theorem Calm.afterCalls_eq (calm : s.Calm) (calls : List CheckpointCall) : s.afterCalls calls =
    s.withMemory (calls.foldl (Memory.changed s.estimator.namespaceName) s.memory) := by
  induction calls generalizing s with
  | nil => rfl
  | cons c calls ih =>
    rw [afterCalls, List.foldl_cons, calm.run_call]
    exact ih (calm.withMemory _)

theorem journal_calls (s : StoreSession) (calls : List CheckpointCall) :
    (journal calls s).map Entry.call = calls := by
  induction calls generalizing s with
  | nil => rfl
  | cons c calls ih => exact congrArg (c :: ·) (ih _)

theorem Calm.answer_of_mem_journal (calm : s.Calm) {t : Entry} (mem : t ∈ journal calls s) :
    t.answer = .flag (t.call.change.answer t.found) := by
  induction calls generalizing s with
  | nil => cases mem
  | cons c calls ih =>
    rw [journal, calm.run_call] at mem
    obtain rfl | later := List.mem_cons.1 mem
    · rfl
    · exact ih (calm.withMemory _) later

theorem Calm.writes_afterCalls (calm : s.Calm) (calls : List CheckpointCall) :
    (s.afterCalls calls).memory.writes =
      s.memory.writes + (journal calls s).countP Entry.writes := by
  induction calls generalizing s with
  | nil => rfl
  | cons c calls ih =>
    have rest := ih (calm.withMemory (s.memory.changed s.estimator.namespaceName c))
    have first : (s.memory.changed s.estimator.namespaceName c).writes =
        s.memory.writes + if c.change.takes (s.number? c.mark) then 1 else 0 := by
      rw [Memory.changed, number?]
      split <;> rfl
    have whole : (s.afterCalls (c :: calls)).memory.writes =
        (s.memory.changed s.estimator.namespaceName c).writes + (journal calls (s.withMemory
          (s.memory.changed s.estimator.namespaceName c))).countP Entry.writes := by
      rw [afterCalls, List.foldl_cons, calm.run_call]
      exact rest
    rw [whole, first, journal, calm.run_call, List.countP_cons, Nat.add_right_comm, Nat.add_assoc]
    rfl

theorem Calm.number?_afterCalls (calm : s.Calm) (unset : s.number? w = none)
    (calls : List CheckpointCall) :
    (s.afterCalls calls).number? w = Change.settled (CheckpointCall.changesOf w calls) := by
  have folded : (s.afterCalls calls).number? w =
      (CheckpointCall.changesOf w calls).foldl Change.after (s.number? w) := by
    rw [calm.afterCalls_eq]
    exact Memory.foldl_changed_key
  rw [folded, unset]
  rfl

theorem Calm.afterCalls (calm : s.Calm) (calls : List CheckpointCall) :
    (s.afterCalls calls).Calm := by
  rw [calm.afterCalls_eq]
  exact calm.withMemory _

theorem Calm.afterCalls_rest (calm : s.Calm) (calls : List CheckpointCall) :
    s.afterCalls calls = s.withMemory (s.afterCalls calls).memory ∧
      (s.afterCalls calls).memory.leases = s.memory.leases ∧
      (s.afterCalls calls).memory.lists = s.memory.lists := by
  rw [calm.afterCalls_eq]
  exact ⟨rfl, Memory.foldl_changed_rest⟩

theorem Calm.afterCalls_other {key : String} (calm : s.Calm)
    (other : ∀ c ∈ calls, key ≠ c.mark.key s.estimator.namespaceName) :
    (s.afterCalls calls).memory.ints key = s.memory.ints key := by
  rw [calm.afterCalls_eq]
  exact Memory.foldl_changed_other other

theorem Calm.ints_perm {calls' : List CheckpointCall} (calm : s.Calm)
    (unset : ∀ w, s.number? w = none) (p : calls.Perm calls')
    (raises : ∀ c ∈ calls, ∃ v, c.change = .raise v) :
    (s.afterCalls calls').memory.ints = (s.afterCalls calls).memory.ints := by
  funext key
  by_cases own : ∃ w : Watermark, key = w.key s.estimator.namespaceName
  · obtain ⟨w, rfl⟩ := own
    have same : (s.afterCalls calls).number? w = (s.afterCalls calls').number? w := by
      rw [calm.number?_afterCalls (unset w), calm.number?_afterCalls (unset w)]
      refine Change.settled_perm ((p.filter _).map _) fun c mem => ?_
      obtain ⟨call, listed, rfl⟩ := List.mem_map.1 mem
      exact raises call (List.mem_of_mem_filter listed)
    rw [number?, number?, calm.afterCalls_eq, calm.afterCalls_eq] at same
    rw [calm.afterCalls_eq, calm.afterCalls_eq]
    exact same.symm
  · rw [calm.afterCalls_other fun c _ same => own ⟨c.mark, same⟩,
      calm.afterCalls_other fun c _ same => own ⟨c.mark, same⟩]

/-- After any seeds and advances, one after another, of watermarks that were never written, each
watermark reads as the highest value that it was advanced to or first seeded at, and still counts as
never written if and only if all that was asked of it is to advance to zero. An advance is refused
if and only if its value is below what it finds. The writes are those of the advances that found
less and of the seeds that found nothing. Nothing else of the store changes, and the order of
advances does not matter for the numbers. -/
theorem checkpoints_join (calm : s.Calm) (unset : ∀ w, s.number? w = none)
    (calls : List CheckpointCall) :
    (∀ w, ∃ v, ((s.afterCalls calls).run (.checkpoint w)).1 = .number v ∧
      IsHighest (0 :: ((Change.firstSeed? (CheckpointCall.changesOf w calls)).toList ++
        Change.raised (CheckpointCall.changesOf w calls))) v) ∧
    (∀ w, ((s.afterCalls calls).run (.checkpoint? w)).1 = .none ↔
      ∀ c ∈ CheckpointCall.changesOf w calls, c = .raise 0) ∧
    (journal calls s).map Entry.call = calls ∧
    (∀ t ∈ journal calls s, ∃ told, t.answer = .flag told ∧
      (∀ v, t.call.change = .raise v → (told = false ↔ v < t.found.getD 0)) ∧
      ∀ v, t.call.change = .seed v → (told = false ↔ t.found.isSome = true)) ∧
    ((s.afterCalls calls).run .writes).1 =
      .count (s.memory.writes + (journal calls s).countP Entry.writes) ∧
    (s.afterCalls calls = s.withMemory (s.afterCalls calls).memory ∧
      (s.afterCalls calls).memory.leases = s.memory.leases ∧
      (s.afterCalls calls).memory.lists = s.memory.lists) ∧
    (∀ key, (∀ c ∈ calls, key ≠ c.mark.key s.estimator.namespaceName) →
      (s.afterCalls calls).memory.ints key = s.memory.ints key) ∧
    (∀ (ns : String) (w : Watermark),
      (ns = s.estimator.namespaceName → ∀ c ∈ calls, c.mark ≠ w) →
        (s.afterCalls calls).memory.ints (w.key ns) = s.memory.ints (w.key ns)) ∧
    ∀ calls', calls.Perm calls' → (∀ c ∈ calls, ∃ v, c.change = .raise v) →
      (s.afterCalls calls').memory.ints = (s.afterCalls calls).memory.ints := by
  have after := calm.afterCalls calls
  refine ⟨fun w => ?_, fun w => ?_, journal_calls s calls, fun t mem => ?_, ?_,
    calm.afterCalls_rest calls, fun key => calm.afterCalls_other, fun ns w other => ?_,
    fun calls' => calm.ints_perm unset⟩
  · rw [after.run_checkpoint, calm.number?_afterCalls (unset w)]
    exact ⟨_, rfl, Change.isHighest_settled _⟩
  · rw [after.run_checkpoint?, calm.number?_afterCalls (unset w), ← Change.settled_eq_none_iff]
    cases Change.settled (CheckpointCall.changesOf w calls) <;> simp [maybeNumber]
  · refine ⟨_, calm.answer_of_mem_journal mem, fun v raise => ?_, fun v seed => ?_⟩
    · rw [raise, Change.answer, decide_eq_false_iff_not, UInt64.not_le]
    · rw [seed, Change.answer]
      cases t.found <;> simp
  · rw [after.run_writes, calm.writes_afterCalls]
  · refine calm.afterCalls_other fun c mem same => ?_
    obtain ⟨own, mark⟩ := Watermark.key_inj.1 same
    exact other own c mem mark.symm

def besideAnother : StoreSession :=
  (StoreSession.initial ⟨.commit, "a", .commitDefault⟩).withMemory { Memory.empty with
    ints := Function.update Memory.empty.ints "bridge_l1_block_num" (some 7)
    writes := 1 }

/-- A head that is seeded, though it was advanced to zero before. -/
def seededLate : List CheckpointCall :=
  [⟨.head, .raise 0⟩, ⟨.head, .seed 3⟩, ⟨.scanned, .raise 0⟩, ⟨.head, .raise 5⟩, ⟨.head, .seed 9⟩,
    ⟨.head, .raise 2⟩]

theorem checkpoints_join_seededLate :
    besideAnother.Calm ∧ (∀ w, besideAnother.number? w = none) ∧
    ((besideAnother.afterCalls seededLate).run (.checkpoint .head)).1 = .number 5 ∧
    ((besideAnother.afterCalls seededLate).run (.checkpoint? .scanned)).1 = .none ∧
    ((besideAnother.afterCalls seededLate).run .writes).1 = .count 3 ∧
    (besideAnother.afterCalls seededLate).memory.ints "bridge_l1_block_num" = some 7 ∧
    (besideAnother.afterCalls [⟨.head, .raise 5⟩, ⟨.head, .raise 2⟩]).memory.ints =
      (besideAnother.afterCalls [⟨.head, .raise 2⟩, ⟨.head, .raise 5⟩]).memory.ints := by
  have calm : besideAnother.Calm := ⟨rfl, rfl, rfl⟩
  have unset : ∀ w, besideAnother.number? w = none := by
    intro w
    cases w <;> decide
  obtain ⟨values, unwritten, -, -, writes, -, -, others, -⟩ :=
    checkpoints_join calm unset seededLate
  obtain ⟨v, read, highest⟩ := values .head
  obtain rfl : v = 5 := highest.unique (by decide)
  obtain ⟨-, -, -, -, -, -, -, -, orders⟩ := checkpoints_join calm unset
    [⟨.head, .raise 2⟩, ⟨.head, .raise 5⟩]
  have thrice : besideAnother.memory.writes +
      (journal seededLate besideAnother).countP Entry.writes = 3 := by
    rw [← calm.writes_afterCalls, calm.afterCalls_eq]
    decide
  exact ⟨calm, unset, read, (unwritten .scanned).2 (by decide), writes.trans (congrArg _ thrice),
    others "" .head (by decide), orders _ (.swap ..) (by simp)⟩

end StoreSession
end Simulation
end BridgeNotifier
