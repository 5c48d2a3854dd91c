import BridgeNotifier.Proofs.Ownership
import Mathlib.Algebra.Group.Nat.Defs
import Mathlib.Logic.Function.Basic
set_option autoImplicit false

/-!
# Samples and their history

The estimators of both roles take samples on one store, call by call or at the same time. What an
estimator answers and keeps is a function of the samples it has taken itself, all of them, though it
keeps the last ones only.
-/
namespace BridgeNotifier

def halfUp (a b : Nat) : Nat :=
  (2 * a + b) / (2 * b)

theorem halfUp_eq (a b : Nat) : halfUp a b = (a + b / 2) / b := by
  have half : (2 * a + b) / 2 = a + b / 2 := by omega
  rw [halfUp, ← Nat.div_div_eq_div_mul, half]

theorem averageInterval_eq_none_iff {newest oldest intervals : UInt64} :
    averageInterval newest oldest intervals = none ↔
      2 ^ 64 ≤ newest.toNat - oldest.toNat + intervals.toNat / 2 := by
  have bound := newest.toNat_lt
  have two : (2 : UInt64).toNat = 2 := rfl
  rw [averageInterval]
  split
  · rename_i zero
    rw [zero, UInt64.toNat_zero]
    simp only [reduceCtorEq, false_iff]
    omega
  · rw [Option.map_eq_none_iff, Word.add?_eq_none_iff, Word.toNat_subFloored, UInt64.toNat_div, two]
    exact Iff.rfl

/-- Times that are told in milliseconds are too few seconds for a sum that does not fit. -/
theorem averageInterval_ne_none (millis oldest intervals : UInt64) :
    averageInterval (millis / 1000) oldest intervals ≠ none := by
  have bound := millis.toNat_lt
  have bound' := intervals.toNat_lt
  have thousand : (1000 : UInt64).toNat = 1000 := rfl
  rw [ne_eq, averageInterval_eq_none_iff, UInt64.toNat_div, thousand]
  omega

theorem averageInterval_eq_some_iff {newest oldest intervals average : UInt64} :
    averageInterval newest oldest intervals = some average ↔
      newest.toNat - oldest.toNat + intervals.toNat / 2 < 2 ^ 64 ∧
        average.toNat = halfUp (newest.toNat - oldest.toNat) intervals.toNat := by
  have bound := newest.toNat_lt
  have two : (2 : UInt64).toNat = 2 := rfl
  rw [averageInterval, halfUp_eq]
  split
  · rename_i zero
    rw [zero, UInt64.toNat_zero, Nat.div_zero, Option.some.injEq, ← UInt64.toNat_inj,
      UInt64.toNat_zero, eq_comm]
    exact ⟨fun none => ⟨by omega, none⟩, And.right⟩
  · rw [Option.map_eq_some_iff]
    constructor
    · rintro ⟨sum, added, rfl⟩
      rw [Word.add?_eq_some_iff, Word.toNat_subFloored, UInt64.toNat_div, two] at added
      rw [UInt64.toNat_div, ← added]
      exact ⟨sum.toNat_lt, rfl⟩
    · rintro ⟨fits, exact⟩
      have added : Word.add? (Word.subFloored newest oldest) (intervals / 2) =
          some (UInt64.ofNat (newest.toNat - oldest.toNat + intervals.toNat / 2)) := by
        rw [Word.add?_eq_some_iff, Word.toNat_subFloored, UInt64.toNat_div, two,
          UInt64.toNat_ofNat_of_lt' fits]
      refine ⟨_, added, ?_⟩
      rw [← UInt64.toNat_inj, UInt64.toNat_div, UInt64.toNat_ofNat_of_lt' fits, exact]

namespace WindowConfig

variable (w : WindowConfig)

/-- The average over a full window: from the newest sample back to the one that is as many samples
older as the window has room for. -/
def averageOf (past : List UInt64) : Nat :=
  halfUp ((past.getD 0 0).toNat - (past.getD w.capacity.toNat 0).toNat) w.capacity.toNat

/-- What is to be said when the first of these samples is taken after the others. -/
def verdict (past : List UInt64) : SampleOutcome :=
  if past.length ≤ w.capacity.toNat then .filling (UInt64.ofNat past.length)
  else if w.minSecs.toNat ≤ w.averageOf past ∧ w.averageOf past ≤ w.maxSecs.toNat then
    .accepted (UInt64.ofNat (w.averageOf past))
  else .rejected (UInt64.ofNat (w.averageOf past))

def latest : List UInt64 → Option UInt64
  | [] => none
  | secs :: past =>
    match w.verdict (secs :: past) with
    | .accepted average => some average
    | _ => latest past

variable {w : WindowConfig} {past : List UInt64} {secs : UInt64}

theorem verdict_within {average : UInt64} (h : w.verdict past = .accepted average) :
    w.minSecs ≤ average ∧ average ≤ w.maxSecs := by
  have bound := w.maxSecs.toNat_lt
  rw [verdict] at h
  split at h
  · cases h
  · split at h
    · rename_i within
      obtain rfl := SampleOutcome.accepted.inj h
      rwa [UInt64.le_iff_toNat_le, UInt64.le_iff_toNat_le, UInt64.toNat_ofNat',
        Nat.mod_eq_of_lt (by omega)]
    · cases h

theorem latest_of_accepted {average : UInt64} (h : w.verdict (secs :: past) = .accepted average) :
    w.latest (secs :: past) = some average := by
  rw [latest, h]

theorem latest_of_not_accepted (h : ∀ average, w.verdict (secs :: past) ≠ .accepted average) :
    w.latest (secs :: past) = w.latest past := by
  rw [latest]
  split
  · exact absurd ‹_› (h _)
  · rfl

theorem latest_within {average : UInt64} (h : w.latest past = some average) :
    w.minSecs ≤ average ∧ average ≤ w.maxSecs := by
  induction past with
  | nil => cases h
  | cons secs past ih =>
    rw [latest] at h
    split at h
    · cases h
      exact verdict_within ‹_›
    · exact ih h

theorem verdict_filling (room : past.length ≤ w.capacity.toNat) :
    w.verdict past = .filling (UInt64.ofNat past.length) :=
  if_pos room

theorem verdict_full (small : secs.toNat < 2 ^ 63) (full : w.capacity.toNat ≤ past.length) :
    ∃ average,
      averageInterval secs ((secs :: past).getD w.capacity.toNat 0) w.capacity = some average ∧
      w.verdict (secs :: past) =
        if w.accepts average then .accepted average else .rejected average := by
  have bound := w.capacity.toNat_lt
  have fits : secs.toNat - ((secs :: past).getD w.capacity.toNat 0).toNat +
      w.capacity.toNat / 2 < 2 ^ 64 := by omega
  obtain ⟨average, computed⟩ := Option.ne_none_iff_exists'.1
    (mt averageInterval_eq_none_iff.1 (Nat.not_le_of_lt fits))
  have exact : w.averageOf (secs :: past) = average.toNat :=
    (averageInterval_eq_some_iff.1 computed).2.symm
  refine ⟨average, computed, ?_⟩
  have more : ¬ (secs :: past).length ≤ w.capacity.toNat := by
    rw [List.length_cons]
    omega
  simp only [verdict, if_neg more, exact, UInt64.ofNat_toNat, accepts, Bool.and_eq_true,
    decide_eq_true_eq, UInt64.le_iff_toNat_le]

end WindowConfig

/-- A store, the samples that each estimator has taken on it, the newest first, with the outcomes
of the calls, and the calls that are under way. -/
structure Bench where
  store : Memory
  log : Role → List (UInt64 × Except Error SampleOutcome)
  busy : Role → Option (UInt64 × Program (Except Error SampleOutcome))

def Surroundings.unfailing : Surroundings Memory :=
  shared.only fun e => e.error? = none

namespace Bench
open Surroundings

def past (b : Bench) (r : Role) : List UInt64 :=
  (b.log r).map Prod.fst

def empty : Bench :=
  ⟨.empty, fun _ => [], fun _ => none⟩

variable (ns : String) (ws : Role → WindowConfig)

def estimator (r : Role) : Estimator :=
  ⟨r, ns, ws r⟩

/-- A call begins, goes on for a stretch, or has come to its end. -/
inductive Step (b : Bench) : Bench → Prop where
  | begin (r : Role) (secs : UInt64) (small : secs.toNat < 2 ^ 63) (idle : b.busy r = none) :
      Step b { b with
        busy := Function.update b.busy r
          (some (secs, ((estimator ns ws r).recordSample secs).run)) }
  | goOn {r : Role} (secs : UInt64) {p q : Program (Except Error SampleOutcome)} {es : List Event}
      {n : Memory} (under : b.busy r = some (secs, p)) (run : p.Leads unfailing b.store es q n) :
      Step b { b with store := n, busy := Function.update b.busy r (some (secs, q)) }
  | finish {r : Role} (secs : UInt64) {x : Except Error SampleOutcome}
      (under : b.busy r = some (secs, .done x)) :
      Step b { b with
        log := Function.update b.log r ((secs, x) :: b.log r)
        busy := Function.update b.busy r none }

inductive Reaches : Bench → Prop where
  | start : Reaches empty
  | step {b c : Bench} (before : Reaches b) (step : Step ns ws b c) : Reaches c

end Bench

namespace Estimator
open Surroundings

variable (e : Estimator)

def storing (average : UInt64) : Routine SampleOutcome := do
  Routine.store (.setInt e.averageKey average)
  return .accepted average

def judged : Option UInt64 → Routine SampleOutcome
  | none => return .overflow
  | some average => do
    if !e.window.accepts average then return .rejected average
    e.storing average

def overflowed (secs length : UInt64) : Routine SampleOutcome := do
  let oldest ← e.popOldest
  e.judged (averageInterval secs oldest (length - 1))

theorem recordSample_eq (secs : UInt64) : e.recordSample secs = (do
    let length ← e.pushSample secs
    if length ≤ e.window.capacity then return .filling length
    e.overflowed secs length) := rfl

/-- Where a call stands that takes a sample after others, with the window and the average that are
stored then. -/
inductive Stage (past : List UInt64) (secs : UInt64) :
    Program (Except Error SampleOutcome) → List UInt64 → Option UInt64 → Prop where
  | pushing : Stage past secs (e.recordSample secs).run
      (past.take e.window.capacity.toNat) (e.window.latest past)
  | popping (full : e.window.capacity.toNat ≤ past.length) :
      Stage past secs (e.overflowed secs (UInt64.ofNat (e.window.capacity.toNat + 1))).run
        (secs :: past.take e.window.capacity.toNat) (e.window.latest past)
  | storing {average : UInt64} (accepted : e.window.verdict (secs :: past) = .accepted average) :
      Stage past secs (e.storing average).run
        ((secs :: past).take e.window.capacity.toNat) (e.window.latest past)
  | ended : Stage past secs (.done (.ok (e.window.verdict (secs :: past))))
      ((secs :: past).take e.window.capacity.toNat) (e.window.latest (secs :: past))

structure LeavesRest (m n : Memory) : Prop where
  lists : ∀ key, key ≠ e.windowKey → n.lists key = m.lists key
  ints : ∀ key, key ≠ e.averageKey → n.ints key = m.ints key

variable {e} {past : List UInt64} {secs : UInt64} {p q : Program (Except Error SampleOutcome)}
variable {m n : Memory} {es : List Event}

theorem LeavesRest.refl (m : Memory) : e.LeavesRest m m :=
  ⟨fun _ _ => rfl, fun _ _ => rfl⟩

theorem LeavesRest.trans {l : Memory} (h : e.LeavesRest l m) (h' : e.LeavesRest m n) :
    e.LeavesRest l n :=
  ⟨fun key hk => (h'.lists key hk).trans (h.lists key hk),
    fun key hk => (h'.ints key hk).trans (h.ints key hk)⟩

theorem unfailing_store {c : StoreCall} {x : Except Error c.Answer}
    (h : unfailing m ⟨.store c, x⟩ n) :
    ∃ leases now y, x = .ok y ∧ (.ok y, n) = Memory.call now { m with leases := leases } c := by
  obtain ⟨sound, ⟨leases, now, answer⟩ | ⟨err, rfl, -⟩⟩ := h
  · cases x with
    | ok y => exact ⟨leases, now, y, rfl, answer⟩
    | error err => cases sound
  · cases sound

theorem judged_eq (average : UInt64) : e.judged (some average) =
    if e.window.accepts average then e.storing average else pure (.rejected average) := by
  rw [judged]
  cases e.window.accepts average <;> rfl

theorem take_room (room : past.length < e.window.capacity.toNat) :
    secs :: past.take e.window.capacity.toNat = (secs :: past).take e.window.capacity.toNat := by
  rw [List.take_of_length_le (Nat.le_of_lt room), List.take_of_length_le]
  rw [List.length_cons]
  exact room

theorem Stage.pushed (fits : min e.window.capacity.toNat past.length + 1 < UInt64.size)
    {length : UInt64}
    (hlength : length = UInt64.ofNat (secs :: past.take e.window.capacity.toNat).length) :
    e.Stage past secs (ExceptT.run (m := Program)
      (if length ≤ e.window.capacity then pure (.filling length) else e.overflowed secs length))
      (secs :: past.take e.window.capacity.toNat) (e.window.latest past) := by
  rw [List.length_cons, List.length_take] at hlength
  have count : length.toNat = min e.window.capacity.toNat past.length + 1 := by
    rw [hlength, UInt64.toNat_ofNat_of_lt' fits]
  by_cases room : past.length < e.window.capacity.toNat
  · have filling : e.window.verdict (secs :: past) = .filling length := by
      rw [WindowConfig.verdict_filling (by rwa [List.length_cons]), hlength,
        Nat.min_eq_right (Nat.le_of_lt room), List.length_cons]
    have last : e.Stage past secs _ _ _ := .ended
    rw [filling, WindowConfig.latest_of_not_accepted (by simp [filling]), ← take_room room] at last
    rwa [if_pos (UInt64.le_iff_toNat_le.2 (by omega))]
  · have full : e.window.capacity.toNat ≤ past.length := Nat.le_of_not_lt room
    rw [if_neg (by rw [UInt64.le_iff_toNat_le]; omega), hlength, Nat.min_eq_left full]
    exact .popping full

theorem Stage.popped (small : secs.toNat < 2 ^ 63) (full : e.window.capacity.toNat ≤ past.length) :
    e.Stage past secs
      (e.judged (averageInterval secs ((secs :: past).getD e.window.capacity.toNat 0)
        e.window.capacity)).run
      ((secs :: past).take e.window.capacity.toNat) (e.window.latest past) := by
  obtain ⟨average, computed, verdict⟩ := WindowConfig.verdict_full small full
  rw [computed, judged_eq]
  split at verdict
  · rw [if_pos ‹_›]
    exact .storing verdict
  · have last : e.Stage past secs _ _ _ := .ended
    rw [verdict, WindowConfig.latest_of_not_accepted (by simp [verdict])] at last
    rw [if_neg ‹_›]
    exact last

theorem popOldest_overflow {now : Nat} (full : e.window.capacity.toNat ≤ past.length)
    (window : m.lists e.windowKey = secs :: past.take e.window.capacity.toNat) :
    Memory.call now m (.popOldest e.windowKey) =
      (.ok ((secs :: past).getD e.window.capacity.toNat 0), { m with
        lists := Function.update m.lists e.windowKey ((secs :: past).take e.window.capacity.toNat)
        writes := m.writes + 1 }) := by
  have bound : e.window.capacity.toNat < (secs :: past).length := by
    rw [List.length_cons]
    omega
  have whole : m.lists e.windowKey = (secs :: past).take (e.window.capacity.toNat + 1) := window
  have oldest : (m.lists e.windowKey).getLast? =
      some ((secs :: past).getD e.window.capacity.toNat 0) := by
    rw [whole, List.getLast?_take, if_neg (Nat.succ_ne_zero _), Nat.add_sub_cancel,
      List.getD_eq_getElem?_getD, List.getElem?_eq_getElem bound]
    rfl
  have rest : (m.lists e.windowKey).dropLast = (secs :: past).take e.window.capacity.toNat := by
    rw [whole, List.dropLast_eq_take, List.length_take, Nat.min_eq_left bound, List.take_take,
      Nat.succ_sub_one, Nat.min_eq_left (Nat.le_succ _)]
  rw [Memory.call_popOldest oldest, rest]

theorem Stage.step {r : Request} {k : r.Reply → Program (Except Error SampleOutcome)} {x : r.Reply}
    (small : secs.toNat < 2 ^ 63)
    (fits : min e.window.capacity.toNat past.length + 1 < UInt64.size)
    (h : e.Stage past secs (.ask r k) (m.lists e.windowKey) (m.ints e.averageKey))
    (hx : unfailing m ⟨r, x⟩ n) :
    e.Stage past secs (k x) (n.lists e.windowKey) (n.ints e.averageKey) ∧ e.LeavesRest m n := by
  generalize hp : Program.ask r k = p at h
  generalize hl : m.lists e.windowKey = l at h
  generalize ha : m.ints e.averageKey = a at h
  cases h with
  | pushing =>
    cases hp
    obtain ⟨leases, now, y, rfl, answer⟩ := unfailing_store hx
    rw [Memory.call_push] at answer
    cases answer
    refine ⟨?_, ?_, fun _ _ => rfl⟩
    · dsimp only
      rw [Function.update_self, hl, ha]
      exact .pushed fits rfl
    · exact fun key hk => Function.update_of_ne hk _ _
  | popping full =>
    cases hp
    obtain ⟨leases, now, y, rfl, answer⟩ := unfailing_store hx
    rw [popOldest_overflow (m := { m with leases := leases }) full hl] at answer
    cases answer
    refine ⟨?_, ?_, fun _ _ => rfl⟩
    · have intervals : UInt64.ofNat (e.window.capacity.toNat + 1) - 1 = e.window.capacity := by
        rw [UInt64.ofNat_add, UInt64.ofNat_toNat]
        exact UInt64.add_sub_cancel ..
      dsimp only
      rw [Function.update_self, ha, intervals]
      exact .popped small full
    · exact fun key hk => Function.update_of_ne hk _ _
  | storing accepted =>
    cases hp
    obtain ⟨leases, now, y, rfl, answer⟩ := unfailing_store hx
    rw [Memory.call_setInt] at answer
    cases answer
    refine ⟨?_, fun _ _ => rfl, fun key hk => Function.update_of_ne hk _ _⟩
    have last : e.Stage past secs _ _ _ := .ended
    rw [accepted, WindowConfig.latest_of_accepted accepted, ← hl] at last
    dsimp only
    rw [Function.update_self]
    exact last
  | ended => cases hp

theorem Stage.not_call {l : Loop} {k : l.Result → Program (Except Error SampleOutcome)}
    {window : List UInt64} {average : Option UInt64} :
    ¬ e.Stage past secs (.call l k) window average := by
  intro h
  generalize hp : Program.call l k = p at h
  cases h <;> cases hp

theorem Stage.leads (small : secs.toNat < 2 ^ 63)
    (fits : min e.window.capacity.toNat past.length + 1 < UInt64.size)
    (h : e.Stage past secs p (m.lists e.windowKey) (m.ints e.averageKey))
    (run : p.Leads unfailing m es q n) :
    e.Stage past secs q (n.lists e.windowKey) (n.ints e.averageKey) ∧ e.LeavesRest m n := by
  induction run with
  | refl p m => exact ⟨h, .refl m⟩
  | ask hx _ ih =>
    obtain ⟨next, rest⟩ := h.step small fits hx
    obtain ⟨last, more⟩ := ih next
    exact ⟨last, rest.trans more⟩
  | call => exact h.not_call.elim

theorem Stage.answered {r : Request} {k : r.Reply → Program (Except Error SampleOutcome)}
    {average : Option UInt64} (h : e.Stage past secs (.ask r k) (m.lists e.windowKey) average) :
    ∃ x n, unfailing m ⟨r, x⟩ n := by
  generalize hp : Program.ask r k = p at h
  generalize hl : m.lists e.windowKey = l at h
  cases h with
  | popping full =>
    cases hp
    exact ⟨.ok _, _, rfl, .inl ⟨m.leases, 0, (popOldest_overflow full hl).symm⟩⟩
  | ended => cases hp
  | _ =>
    cases hp
    exact ⟨.ok _, _, rfl, .inl ⟨m.leases, 0, rfl⟩⟩

theorem Stage.result {x : Except Error SampleOutcome} {window : List UInt64}
    {average : Option UInt64} (h : e.Stage past secs (.done x) window average) :
    x = .ok (e.window.verdict (secs :: past)) ∧
      window = (secs :: past).take e.window.capacity.toNat ∧
      average = e.window.latest (secs :: past) := by
  generalize hp : Program.done x = p at h
  cases h with
  | ended => exact ⟨Program.done.inj hp, rfl, rfl⟩
  | _ => cases hp

theorem Stage.within {window : List UInt64} {stored : Option UInt64} {average : UInt64}
    (h : e.Stage past secs p window stored) (ha : stored = some average) :
    e.window.minSecs ≤ average ∧ average ≤ e.window.maxSecs := by
  cases h <;> exact WindowConfig.latest_within ha

theorem Stage.ends (small : secs.toNat < 2 ^ 63)
    (fits : min e.window.capacity.toNat past.length + 1 < UInt64.size)
    (h : e.Stage past secs p (m.lists e.windowKey) (m.ints e.averageKey)) :
    ∃ es n, p.Leads unfailing m es (.done (.ok (e.window.verdict (secs :: past)))) n := by
  induction p generalizing m with
  | done x =>
    obtain ⟨rfl, -, -⟩ := h.result
    exact ⟨[], m, .refl _ m⟩
  | ask r k ih =>
    obtain ⟨x, n, hx⟩ := h.answered
    obtain ⟨es, l, run⟩ := ih x (h.step small fits hx).1
    exact ⟨_, l, .ask hx run⟩
  | call l k _ => exact h.not_call.elim

end Estimator

theorem storedAverage_answer {e : Estimator} {m n : Memory} {es : List Event}
    {x : Except Error (Option UInt64)}
    (run : e.storedAverage.run.Leads Surroundings.unfailing m es (.done x) n) :
    x = .ok ((m.ints e.averageKey).filter fun v => 0 < v) := by
  cases run with
  | @ask _ _ y _ _ _ _ _ hx rest =>
    obtain ⟨leases, now, y, rfl, answer⟩ := Estimator.unfailing_store hx
    cases answer
    cases rest
    rfl

namespace Bench
open Surroundings Estimator

variable {ns : String} {ws : Role → WindowConfig} {b c : Bench} {r other : Role}

theorem windowKey_ne (h : other ≠ r) :
    (estimator ns ws other).windowKey ≠ (estimator ns ws r).windowKey := by
  intro same
  have names : other.windowName = r.windowName := storeKey_injective same
  revert h names
  cases other <;> cases r <;> decide

theorem averageKey_ne (h : other ≠ r) :
    (estimator ns ws other).averageKey ≠ (estimator ns ws r).averageKey := by
  intro same
  have names : other.averageName = r.averageName := storeKey_injective same
  revert h names
  cases other <;> cases r <;> decide

def Fits (ws : Role → WindowConfig) (b : Bench) : Prop :=
  ∀ r, min (ws r).capacity.toNat (b.past r).length + 1 < UInt64.size

/-- What an estimator keeps while none of its calls is under way, and where its call stands
otherwise. -/
def Stands (ns : String) (ws : Role → WindowConfig) (b : Bench) (r : Role) : Prop :=
  match b.busy r with
  | none =>
    b.store.lists (estimator ns ws r).windowKey = (b.past r).take (ws r).capacity.toNat ∧
      b.store.ints (estimator ns ws r).averageKey = (ws r).latest (b.past r)
  | some (secs, p) => secs.toNat < 2 ^ 63 ∧
      (estimator ns ws r).Stage (b.past r) secs p (b.store.lists (estimator ns ws r).windowKey)
        (b.store.ints (estimator ns ws r).averageKey)

/-- Every outcome is the verdict on the samples up to it. -/
def Told (ws : Role → WindowConfig) (b : Bench) (r : Role) : Prop :=
  ∀ newer secs x older, b.log r = newer ++ (secs, x) :: older →
    x = .ok ((ws r).verdict (secs :: older.map Prod.fst))

theorem Stands.same (h : b.Stands ns ws r) (busy : c.busy r = b.busy r) (log : c.log r = b.log r)
    (lists : c.store.lists (estimator ns ws r).windowKey =
      b.store.lists (estimator ns ws r).windowKey)
    (ints : c.store.ints (estimator ns ws r).averageKey =
      b.store.ints (estimator ns ws r).averageKey) : c.Stands ns ws r := by
  unfold Stands past at h ⊢
  rwa [busy, log, lists, ints]

theorem Step.fits (step : Step ns ws b c) (h : c.Fits ws) : b.Fits ws := by
  have longer : ∀ r, (b.past r).length ≤ (c.past r).length := by
    intro r
    cases step with
    | begin | goOn => exact Nat.le_refl _
    | @finish r' secs x under =>
      by_cases same : r = r'
      · subst same
        simp [past]
      · simp [past, Function.update_of_ne same]
  intro r
  have := h r
  have := longer r
  omega

theorem Stands.step (h : ∀ r, b.Stands ns ws r) (fits : b.Fits ws) (step : Step ns ws b c)
    (r : Role) : c.Stands ns ws r := by
  cases step with
  | begin mover secs small idle =>
    by_cases same : r = mover
    · subst same
      have kept := h r
      simp only [Stands, idle] at kept
      simp only [Stands, Function.update_self]
      refine ⟨small, ?_⟩
      rw [kept.1, kept.2]
      exact .pushing
    · exact (h r).same (Function.update_of_ne same _ _) rfl rfl rfl
  | @goOn mover secs p q es n under run =>
    have stands := h mover
    simp only [Stands, under] at stands
    obtain ⟨next, rest⟩ := stands.2.leads stands.1 (fits mover) run
    by_cases same : r = mover
    · subst same
      simp only [Stands, Function.update_self]
      exact ⟨stands.1, next⟩
    · exact (h r).same (Function.update_of_ne same _ _) rfl (rest.lists _ (windowKey_ne same))
        (rest.ints _ (averageKey_ne same))
  | @finish mover secs x under =>
    have stands := h mover
    simp only [Stands, under] at stands
    obtain ⟨-, window, average⟩ := stands.2.result
    by_cases same : r = mover
    · subst same
      simp only [Stands, past, Function.update_self]
      exact ⟨window, average⟩
    · exact (h r).same (Function.update_of_ne same _ _) (Function.update_of_ne same _ _) rfl rfl

theorem Told.step (h : b.Told ws r) (stands : b.Stands ns ws r) (step : Step ns ws b c) :
    c.Told ws r := by
  cases step with
  | begin | goOn => exact h
  | @finish mover secs x under =>
    intro newer secs' y older split
    by_cases same : r = mover
    · subst same
      simp only [Stands, under] at stands
      simp only [Function.update_self] at split
      cases newer with
      | nil =>
        cases split
        exact stands.2.result.1
      | cons entry newer => exact h newer secs' y older (List.cons.inj split).2
    · exact h newer secs' y older (by simpa [Function.update_of_ne same] using split)

theorem stands_of_reaches (reaches : Reaches ns ws b) (fits : b.Fits ws) (r : Role) :
    b.Stands ns ws r ∧ b.Told ws r := by
  induction reaches generalizing r with
  | start => exact ⟨⟨(List.take_nil).symm, rfl⟩, by intro newer _ _ _ h; cases newer <;> cases h⟩
  | step before step ih =>
    have before := ih (step.fits fits)
    exact ⟨.step (fun r => (before r).1) (step.fits fits) step r,
      (before r).2.step (before r).1 step⟩

/-- What an estimator has answered and what it keeps follows from its own samples alone. Its calls
come to their end and never fail. Between them its window holds its last samples, and the average
that is stored is the one that was accepted last; at every moment it lies within the bounds. -/
theorem samples_tell (ns : String) (ws : Role → WindowConfig) {b : Bench}
    (reaches : Reaches ns ws b) (fits : b.Fits ws) (r : Role) :
    (∀ newer secs x older, b.log r = newer ++ (secs, x) :: older →
      x = .ok ((ws r).verdict (secs :: older.map Prod.fst))) ∧
    (b.busy r = none →
      b.store.lists (estimator ns ws r).windowKey = (b.past r).take (ws r).capacity.toNat ∧
      b.store.ints (estimator ns ws r).averageKey = (ws r).latest (b.past r) ∧
      ∀ es x n, (estimator ns ws r).storedAverage.run.Leads unfailing b.store es (.done x) n →
        x = .ok (((ws r).latest (b.past r)).filter fun average => 0 < average)) ∧
    (∀ average, b.store.ints (estimator ns ws r).averageKey = some average →
      (ws r).minSecs ≤ average ∧ average ≤ (ws r).maxSecs) ∧
    ∀ secs p, b.busy r = some (secs, p) → ∃ es n,
      p.Leads unfailing b.store es (.done (.ok ((ws r).verdict (secs :: b.past r)))) n := by
  obtain ⟨stands, told⟩ := stands_of_reaches reaches fits r
  refine ⟨told, fun idle => ?_, fun average stored => ?_, fun secs p under => ?_⟩
  · simp only [Stands, idle] at stands
    refine ⟨stands.1, stands.2, fun es x n run => ?_⟩
    rw [storedAverage_answer run, stands.2]
  · cases busy : b.busy r with
    | none =>
      simp only [Stands, busy] at stands
      exact WindowConfig.latest_within (stands.2.symm.trans stored)
    | some call =>
      simp only [Stands, busy] at stands
      exact stands.2.within stored
  · simp only [Stands, under] at stands
    exact stands.2.ends stands.1 (fits r)

def smallWindows : Role → WindowConfig
  | .commit => ⟨1, 30, 600, 600⟩
  | .verify => ⟨2, 30, 600, 600⟩

theorem unfailing_call {m n : Memory} {k : StoreCall} {x : k.Answer}
    (h : Memory.call 0 m k = (.ok x, n)) : unfailing m ⟨.store k, .ok x⟩ n :=
  ⟨rfl, .inl ⟨m.leases, 0, h.symm⟩⟩

theorem Reaches.sample {x : Except Error SampleOutcome} {es : List Event} {n : Memory}
    (reaches : Reaches ns ws b) (secs : UInt64) (small : secs.toNat < 2 ^ 63)
    (idle : b.busy r = none)
    (run : ((estimator ns ws r).recordSample secs).run.Leads unfailing b.store es (.done x) n) :
    Reaches ns ws ⟨n, Function.update b.log r ((secs, x) :: b.log r), b.busy⟩ := by
  have ended := ((reaches.step (.begin r secs small idle)).step
    (.goOn secs (Function.update_self ..) run)).step (.finish secs (Function.update_self ..))
  have same : Function.update b.busy r none = b.busy := by rw [← idle, Function.update_eq_self]
  simpa [same] using ended

/-- The other estimator takes a sample while the second call of this one is under way. -/
theorem reaches_overflow : ∃ b, Reaches "" smallWindows b ∧ b.busy .commit = none ∧
    b.log .commit = [(65, .ok (.accepted 60)), (5, .ok (.filling 1))] ∧
    b.log .verify = [(7, .ok (.filling 1))] := by
  have begun : Reaches "" smallWindows empty := .start
  have first := begun.sample 5 (r := .commit) (x := .ok (.filling 1)) (by decide) rfl
    (.ask (unfailing_call rfl) (.refl _ _))
  have pushed := (first.step (.begin .commit 65 (by decide) rfl)).step
    (.goOn 65 (r := .commit)
      (q := ((estimator "" smallWindows .commit).overflowed 65 2).run) rfl
      (.ask (unfailing_call rfl) (.refl _ _)))
  have other := pushed.sample 7 (r := .verify) (x := .ok (.filling 1)) (by decide) rfl
    (.ask (unfailing_call rfl) (.refl _ _))
  have last := other.step (.goOn 65 (r := .commit) (q := .done (.ok (.accepted 60))) rfl
    (.ask (unfailing_call rfl) (.ask (unfailing_call rfl) (.refl _ _))))
  exact ⟨_, last.step (.finish 65 (r := .commit) (x := .ok (.accepted 60)) rfl),
    rfl, rfl, rfl⟩

theorem samples_tell_overflow : ∃ b, Reaches "" smallWindows b ∧ b.Fits smallWindows ∧
    b.log .commit = [(65, .ok (.accepted 60)), (5, .ok (.filling 1))] ∧
    b.store.lists "bridge_commit_time_list" = [65] ∧
    b.store.ints "bridge_avg_commit_duration" = some 60 := by
  obtain ⟨b, reaches, idle, log, other⟩ := reaches_overflow
  have past : b.past .commit = [65, 5] := congrArg (List.map Prod.fst) log
  have fits : b.Fits smallWindows := by
    rintro (_ | _)
    · rw [past]
      decide
    · rw [Bench.past, other]
      decide
  obtain ⟨-, kept, -, -⟩ := samples_tell "" smallWindows reaches fits .commit
  obtain ⟨window, average, -⟩ := kept idle
  rw [past] at window average
  exact ⟨b, reaches, fits, log, window, average⟩

end Bench
end BridgeNotifier
