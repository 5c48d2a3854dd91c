import BridgeNotifier.Proofs.Deliveries
import BridgeNotifier.Proofs.Transports
import BridgeNotifier.Proofs.Turns
import Mathlib.Data.Fin.VecNotation
import Mathlib.Data.List.Forall2
set_option autoImplicit false

/-!
# Two ticks one after the other

In a still world the tick of one task is run to its end, and then the tick of another. What they
start in the background runs whenever it may.
-/
namespace BridgeNotifier
open Surroundings Replicas

/-- A move while nothing changes by itself. A tick waits for the ends of those before it. -/
def Stillness.successive {n : Nat} (a : Stillness) (now : Nat) (P : Replicas n) (mv : Move n) : Prop :=
  mv.now = now ∧ a.holds mv.event ∧
    ∀ i j, i < j → mv.actor = .tick j → (P.ticks i).program.result?.isSome = true

namespace Setup

/-- The tick of `A` and then the tick of `B` come to their ends, with all that they started. -/
structure Succession (s : Setup) (a : Stillness) (now : Nat) (m : Memory) (A B : Task)
    (x y : Except Error Outcome) (ms : List (Move 2)) (P : Replicas 2) : Prop where
  reaches : Reaches (s.together ![A, B] now m) (a.successive now) ms P
  first : (P.ticks 0).program = .done x
  second : (P.ticks 1).program = .done y
  background : ∀ t ∈ P.jobs, t.program = .done ()

/-- What can be found under a key in the course of two ticks. -/
def Known (s : Setup) (A B : Task) (m : Memory) (key : String) (found : Option UInt64) : Prop :=
  key ∉ s.owned A → key ∉ s.owned B → found = m.ints key

end Setup

def tickEvents {n : Nat} (ms : List (Move n)) : List Event :=
  (ms.filterMap Move.ticked?).map Prod.snd

theorem tickEvents_append {n : Nat} (ms : List (Move n)) (mv : Move n) :
    tickEvents (ms ++ [mv]) = tickEvents ms ++ (mv.ticked?.map Prod.snd).toList := by
  simp only [tickEvents, List.filterMap_append, List.map_append]
  cases h : mv.ticked? <;> simp [h]

theorem flatMap_set_perm {β γ : Type} (f : β → List γ) {bs : List β} {b c : β} {x : γ} {j : Nat}
    (at_j : bs[j]? = some b) (next : f c = f b ++ [x]) :
    ((bs.set j c).flatMap f).Perm (bs.flatMap f ++ [x]) := by
  induction bs generalizing j with
  | nil => cases at_j
  | cons first rest ih =>
    cases j with
    | zero =>
      obtain rfl := Option.some.inj at_j
      simp only [List.set_cons_zero, List.flatMap_cons, next, List.append_assoc]
      exact (List.perm_append_comm).append_left _
    | succ j =>
      simp only [List.set_cons_succ, List.flatMap_cons, List.append_assoc]
      exact (ih at_j).append_left _

theorem Replicas.Reaches.events_perm {n : Nat} {first P : Replicas n}
    {allowed : Replicas n → Move n → Prop} {ms : List (Move n)} (none : first.jobs = [])
    (run : Reaches first allowed ms P) :
    (ms.map Move.event).Perm (tickEvents ms ++ P.jobs.flatMap Thread.events) := by
  induction run with
  | start => simp [tickEvents, none]
  | @step ms mv P Q _ _ step ih =>
    have later := ih.append_right [mv.event]
    rw [List.append_assoc] at later
    rw [tickEvents_append, List.map_append, List.append_assoc]
    refine later.trans (.append_left _ ?_)
    cases step with
    | @tick now i e q m _ _ =>
      have fresh : (e.starts.map (Thread.mk [])).flatMap Thread.events = [] := by simp
      rw [List.flatMap_append, fresh, List.append_nil]
      exact List.perm_append_comm
    | job _ started _ => exact (flatMap_set_perm Thread.events started rfl).symm

namespace Setup

variable {s : Setup} {a : Stillness} {now : Nat} {m : Memory} {A B : Task} {ms : List (Move 2)}
variable {P Q : Replicas 2} {mv : Move 2}

def bothEvents (ticks : Fin 2 → Thread (Except Error Outcome)) : List Event :=
  (List.finRange 2).flatMap fun i => (ticks i).events

theorem bothEvents_eq (ticks : Fin 2 → Thread (Except Error Outcome)) :
    bothEvents ticks = (ticks 0).events ++ (ticks 1).events := by
  simp [bothEvents, List.finRange_succ]

/-- How far two ticks have come, one after the other. -/
structure Stage (s : Setup) (a : Stillness) (now : Nat) (m : Memory) (A B : Task)
    (ticks : Fin 2 → Thread (Except Error Outcome)) (n : Memory) : Prop where
  runs : ∃ l, (s.tick A).run.Leads (quiet a now) m (ticks 0).events (ticks 0).program l ∧
    (s.tick B).run.Leads (quiet a now) l (ticks 1).events (ticks 1).program n
  waits : (ticks 0).program.result? = none → ticks 1 = ⟨[], (s.tick B).run⟩

structure Progress (s : Setup) (a : Stillness) (now : Nat) (m : Memory) (A B : Task)
    (ms : List (Move 2)) (P : Replicas 2) : Prop where
  stage : s.Stage a now m A B P.ticks P.memory
  jobs : List.Forall₂ (a.Underway (s.Known A B m)) ((bothEvents P.ticks).flatMap Event.starts) P.jobs
  heard : tickEvents ms = bothEvents P.ticks
  aside : ∀ mv ∈ ms, mv.ticked? = none → mv.event.Aside

theorem progress_together : s.Progress a now m A B [] (s.together ![A, B] now m) where
  stage := ⟨⟨m, .refl _ _, .refl _ _⟩, fun _ => rfl⟩
  jobs := .nil
  heard := rfl
  aside := by simp

section Moves
variable {ticks : Fin 2 → Thread (Except Error Outcome)} {e : Event} {l n : Memory}

theorem Stage.known (h : s.Stage a now m A B ticks n) (key : String) :
    s.Known A B m key (n.ints key) := by
  intro hA hB
  obtain ⟨l, first, second⟩ := h.runs
  have shares : ∀ m e n, quiet a now m e n → shared m e n := fun _ _ _ h => shared_of_timed h.2
  exact (ints_of_not_owned (second.map id shares) hB).trans
    (ints_of_not_owned (first.map id shares) hA)

theorem Stage.tick {i : Fin 2} {q : Program (Except Error Outcome)}
    (h : s.Stage a now m A B ticks l) (turn : i = 1 → (ticks 0).program.result?.isSome = true)
    (run : (ticks i).program.Leads (quiet a now) l [e] q n) :
    s.Stage a now m A B (Function.update ticks i ⟨(ticks i).events ++ [e], q⟩) n ∧
      bothEvents (Function.update ticks i ⟨(ticks i).events ++ [e], q⟩) = bothEvents ticks ++ [e] := by
  obtain ⟨k, first, second⟩ := h.runs
  obtain rfl | rfl : i = 0 ∨ i = 1 := by omega
  · have start : ticks 1 = ⟨[], (s.tick B).run⟩ := h.waits (Program.result?_of_leads_cons run)
    rw [start] at second
    obtain rfl := second.eq_of_nil
    refine ⟨⟨⟨n, ?_, ?_⟩, fun _ => start⟩, ?_⟩
    · rw [Function.update_self]
      exact first.trans run
    · rw [Function.update_of_ne (by decide), start]
      exact .refl _ n
    · simp [bothEvents_eq, start]
  · refine ⟨⟨⟨k, first, ?_⟩, fun unfinished => ?_⟩, ?_⟩
    · rw [Function.update_self]
      exact second.trans run
    · have finished := turn rfl
      rw [Function.update_of_ne (by decide)] at unfinished
      rw [unfinished] at finished
      cases finished
    · simp [bothEvents_eq]

theorem underway_starts (e : Event) (known : String → Option UInt64 → Prop) :
    List.Forall₂ (a.Underway known) e.starts (e.starts.map (Thread.mk [])) :=
  List.forall₂_map_right_iff.2 (List.forall₂_same.2 fun p _ => .refl p ())

theorem Progress.tick {i : Fin 2} {q : Program (Except Error Outcome)}
    (h : s.Progress a now m A B ms P) (ok : a.successive now P ⟨now, .tick i, e⟩)
    (run : (P.ticks i).program.Leads (timed now) P.memory [e] q n) :
    s.Progress a now m A B (ms ++ [⟨now, .tick i, e⟩]) ⟨now, n,
      Function.update P.ticks i ⟨(P.ticks i).events ++ [e], q⟩,
      P.jobs ++ e.starts.map (Thread.mk [])⟩ := by
  have quietly : (P.ticks i).program.Leads (quiet a now) P.memory [e] q n :=
    run.only (by simpa using ok.2.1)
  obtain ⟨stage, both⟩ :=
    h.stage.tick (fun hi => ok.2.2 0 1 (by decide) (congrArg Actor.tick hi)) quietly
  have seen : tickEvents (ms ++ [Move.mk now (.tick i) e]) = tickEvents ms ++ [e] :=
    tickEvents_append ms _
  refine ⟨stage, ?_, ?_, ?_⟩
  · rw [both, List.flatMap_append, List.flatMap_cons, List.flatMap_nil, List.append_nil]
    exact List.rel_append h.jobs (underway_starts e _)
  · rw [both, seen, h.heard]
  · intro mv hmv untimed
    obtain hmv | hmv := List.mem_append.1 hmv
    · exact h.aside mv hmv untimed
    · obtain rfl := List.mem_singleton.1 hmv
      cases untimed

theorem Progress.job {j : Nat} {t : Thread Unit} {q : Program Unit}
    (h : s.Progress a now m A B ms P) (ok : a.successive now P ⟨now, .job j, e⟩)
    (started : P.jobs[j]? = some t) (run : t.program.Leads (timed now) P.memory [e] q n) :
    s.Progress a now m A B (ms ++ [⟨now, .job j, e⟩])
      ⟨now, n, P.ticks, P.jobs.set j ⟨t.events ++ [e], q⟩⟩ := by
  have answered : timed now P.memory e n := run.single
  have sees : t.program.Leads (a.beside (s.Known A B m)) () [e] q () := by
    refine (anyhow_of_leads run).only fun e' he' => ?_
    obtain rfl := List.mem_singleton.1 he'
    refine ⟨ok.2.1, ?_⟩
    rintro key found rfl
    exact (timed_found answered).2 ▸ h.stage.known key
  have flipped : List.Forall₂ (flip (a.Underway (s.Known A B m))) P.jobs _ :=
    List.Forall₂.flip h.jobs
  obtain ⟨p, hp, before⟩ := exists_partner flipped started
  have after : a.Underway (s.Known A B m) p ⟨t.events ++ [e], q⟩ := Program.Leads.trans before sees
  have aside : e.Aside := by
    obtain ⟨e', -, he'⟩ := List.mem_flatMap.1 (List.mem_of_getElem? hp)
    exact aside_of_starts he' after e (by simp)
  -- so the second tick does not notice whether this came before it, after it or meanwhile
  obtain rfl : n = P.memory := quiet_idle (a := a) aside.idle ⟨ok.2.1, answered⟩
  have seen : tickEvents (ms ++ [Move.mk now (.job j) e]) = tickEvents ms :=
    (tickEvents_append ms _).trans (List.append_nil _)
  refine ⟨h.stage, forall₂_set_right h.jobs hp after, seen.trans h.heard, ?_⟩
  intro mv hmv untimed
  obtain hmv | hmv := List.mem_append.1 hmv
  · exact h.aside mv hmv untimed
  · obtain rfl := List.mem_singleton.1 hmv
    exact aside

theorem Progress.step (h : s.Progress a now m A B ms P) (ok : a.successive now P mv)
    (step : P.Step mv Q) : s.Progress a now m A B (ms ++ [mv]) Q := by
  obtain rfl := ok.1
  cases step with
  | tick _ run => exact h.tick ok run
  | job _ started run => exact h.job ok started run

theorem progress_of_reaches (run : Reaches (s.together ![A, B] now m) (a.successive now) ms P) :
    s.Progress a now m A B ms P := by
  induction run with
  | start => exact progress_together
  | step _ ok step ih => exact ih.step ok step

end Moves

section Reach
variable {first : Replicas 2} {es : List Event} {n : Memory}

abbrev Pending (a : Stillness) (now : Nat) (jobs : List (Thread Unit)) : Prop :=
  ∀ t ∈ jobs, t.program.Completes (quiet a now) fun _ => True

theorem reach_tick {i : Fin 2} {r : Except Error Outcome}
    (before : Reaches first (a.successive now) ms P) (instant : P.now ≤ now)
    (turn : i = 1 → (P.ticks 0).program.result?.isSome = true) (pending : Pending a now P.jobs)
    (run : (P.ticks i).program.Leads (quiet a now) P.memory es (.done r) n) :
    ∃ ms' Q, Reaches first (a.successive now) ms' Q ∧ Q.now ≤ now ∧ Q.memory = n ∧
      (Q.ticks i).program = .done r ∧ (∀ k ≠ i, Q.ticks k = P.ticks k) ∧ Pending a now Q.jobs := by
  induction es generalizing ms P with
  | nil => exact ⟨ms, P, before, instant, run.eq_of_nil.symm, run.eq_done, fun _ _ => rfl, pending⟩
  | cons e es ih =>
    obtain ⟨p, u, one, rest⟩ := (show Program.Leads _ _ _ ([e] ++ es) _ _ from run).split
    have ok : a.successive now P ⟨now, .tick i, e⟩ :=
      ⟨rfl, one.single.1, fun k j lt same => by
        obtain rfl : i = j := by injection same
        obtain ⟨rfl, rfl⟩ : k = 0 ∧ i = 1 := by omega
        exact turn rfl⟩
    have step : P.Step ⟨now, .tick i, e⟩ ⟨now, u,
        Function.update P.ticks i ⟨(P.ticks i).events ++ [e], p⟩,
        P.jobs ++ e.starts.map (Thread.mk [])⟩ := .tick instant (one.map id fun _ _ _ h => h.2)
    have turn' : i = 1 → ((Function.update P.ticks i ⟨(P.ticks i).events ++ [e], p⟩)
        0).program.result?.isSome = true := by
      rintro rfl
      exact turn rfl
    have pending' : Pending a now (P.jobs ++ e.starts.map (Thread.mk [])) := by
      intro t ht
      obtain ht | ht := List.mem_append.1 ht
      · exact pending t ht
      · obtain ⟨p, hp, rfl⟩ := List.mem_map.1 ht
        exact completes_starts e p hp
    obtain ⟨ms', Q, reaches, instant', memory, ended, others, pending'⟩ :=
      ih (before.step ok step) (Nat.le_refl now) turn' pending'
        (by simpa only [Function.update_self] using rest)
    refine ⟨ms', Q, reaches, instant', memory, ended, fun k hk => ?_, pending'⟩
    rw [others k hk]
    exact Function.update_of_ne hk _ _

theorem reach_job {j : Nat} {t : Thread Unit} (before : Reaches first (a.successive now) ms P)
    (instant : P.now ≤ now) (started : P.jobs[j]? = some t)
    (run : t.program.Leads (quiet a now) P.memory es (.done ()) n) :
    ∃ ms' Q events, Reaches first (a.successive now) ms' Q ∧ Q.now ≤ now ∧ Q.ticks = P.ticks ∧
      Q.jobs = P.jobs.set j ⟨events, .done ()⟩ := by
  obtain ⟨lt, found⟩ := List.getElem?_eq_some_iff.1 started
  induction es generalizing ms P t with
  | nil =>
    refine ⟨ms, P, t.events, before, instant, rfl, ?_⟩
    have same : t = ⟨t.events, .done ()⟩ := congrArg (Thread.mk t.events) run.eq_done
    rw [← same, ← found, List.set_getElem_self]
  | cons e es ih =>
    obtain ⟨p, u, one, rest⟩ := (show Program.Leads _ _ _ ([e] ++ es) _ _ from run).split
    have ok : a.successive now P ⟨now, .job j, e⟩ := ⟨rfl, one.single.1, fun _ _ _ => nofun⟩
    have step : P.Step ⟨now, .job j, e⟩ ⟨now, u, P.ticks, P.jobs.set j ⟨t.events ++ [e], p⟩⟩ :=
      .job instant started (one.map id fun _ _ _ h => h.2)
    obtain ⟨ms', Q, events, reaches, instant', ticks, jobs⟩ :=
      ih (before.step ok step) (Nat.le_refl now) (List.getElem?_set_self lt) rest
        (by simpa using lt) (by simp)
    exact ⟨ms', Q, events, reaches, instant', ticks, by rw [jobs, List.set_set]⟩

theorem reach_end (before : Reaches first (a.successive now) ms P) (instant : P.now ≤ now)
    (pending : Pending a now P.jobs) (k : Nat) :
    ∃ ms' Q, Reaches first (a.successive now) ms' Q ∧ Q.now ≤ now ∧ Q.ticks = P.ticks ∧
      Q.jobs.length = P.jobs.length ∧ Pending a now Q.jobs ∧
      ∀ j < k, ∀ t, Q.jobs[j]? = some t → t.program = .done () := by
  induction k with
  | zero => exact ⟨ms, P, before, instant, rfl, rfl, pending, fun _ hj => absurd hj (by omega)⟩
  | succ k ih =>
    obtain ⟨ms₁, P₁, reaches, instant₁, ticks, length, pending₁, ended⟩ := ih
    cases started : P₁.jobs[k]? with
    | none =>
      refine ⟨ms₁, P₁, reaches, instant₁, ticks, length, pending₁, fun j hj t ht => ?_⟩
      obtain rfl | hj := Nat.lt_succ_iff_lt_or_eq.1 hj |>.symm
      · rw [started] at ht
        cases ht
      · exact ended j hj t ht
    | some t =>
      obtain ⟨es, ⟨⟩, n, run, -⟩ := pending₁ t (List.mem_of_getElem? started) P₁.memory
      obtain ⟨ms₂, P₂, events, reaches₂, instant₂, ticks₂, jobs⟩ :=
        reach_job reaches instant₁ started run
      refine ⟨ms₂, P₂, reaches₂, instant₂, ticks₂.trans ticks, by simp [jobs, length], ?_, ?_⟩
      · intro t' ht'
        rw [jobs] at ht'
        obtain ht' | rfl := List.mem_or_eq_of_mem_set ht'
        · exact pending₁ t' ht'
        · exact Program.completes_done trivial
      · intro j hj t' ht'
        rw [jobs] at ht'
        by_cases hjk : k = j
        · subst hjk
          rw [List.getElem?_set_self (List.getElem?_eq_some_iff.1 started).1] at ht'
          obtain rfl := Option.some.inj ht'
          rfl
        · rw [List.getElem?_set_ne hjk] at ht'
          exact ended j (by omega) t' ht'

/-- What two ticks come to by themselves, they come to with all that they start. -/
theorem exists_succession {es' : List Event} {x y : Except Error Outcome} {l : Memory}
    (tickA : s.TickRun A a now m es x l) (tickB : s.TickRun B a now l es' y n) :
    ∃ ms P, s.Succession a now m A B x y ms P := by
  obtain ⟨esA, runA⟩ := tickA.leads
  obtain ⟨esB, runB⟩ := tickB.leads
  obtain ⟨ms₁, P₁, reaches₁, instant₁, rfl, first, others, pending₁⟩ :=
    reach_tick (i := 0) (P := s.together ![A, B] now m) .start (Nat.le_refl now)
      (fun h => absurd h (by decide)) (fun _ ht => nomatch ht) runA
  have start : (P₁.ticks 1).program = (s.tick B).run := congrArg Thread.program (others 1 (by decide))
  rw [← start] at runB
  obtain ⟨ms₂, P₂, reaches₂, instant₂, -, second, others₂, pending₂⟩ :=
    reach_tick (i := 1) reaches₁ instant₁ (fun _ => by rw [first]; rfl) pending₁ runB
  obtain ⟨ms₃, P₃, reaches₃, -, ticks, length, -, ended⟩ :=
    reach_end reaches₂ instant₂ pending₂ P₂.jobs.length
  refine ⟨ms₃, P₃, reaches₃, ?_, ?_, fun t ht => ?_⟩
  · rw [ticks, others₂ 0 (by decide), first]
  · rw [ticks, second]
  · obtain ⟨j, hj⟩ := List.getElem?_of_mem ht
    exact ended j (length ▸ (List.getElem?_eq_some_iff.1 hj).1) t hj

end Reach

end Setup
end BridgeNotifier
