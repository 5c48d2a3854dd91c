import BridgeNotifier.Proofs.Tables
import BridgeNotifier.Simulation.Scheduler
set_option autoImplicit false

namespace BridgeNotifier

namespace Surroundings
open Simulation

def scripted : Surroundings World :=
  fun w e v => w.reply e.request = (e.reply, v)

theorem sharing_of_scripted {w v : World} {e : Event} (h : scripted w e v) :
    sharing Eq w.store.memory e v.store.memory := by
  obtain ⟨r, x⟩ := e
  cases r with
  | store c =>
    cases h
    simp only [sharing]
    split
    · exact .inr ⟨_, rfl, rfl⟩
    · split
      · exact .inr ⟨_, rfl, rfl⟩
      · exact .inl ⟨w.store.memory.leases, w.now, rfl, rfl⟩
  | chain c | records c | depth | chainIds | sampleClock | millis | instant | token | requestId
  | send e | measure m | launch d n | hold l | letGo l | pause i s =>
    cases h
    rfl

theorem shared_of_scripted {w v : World} {e : Event} (h : scripted w e v) :
    shared w.store.memory e v.store.memory :=
  shared_of_sharing (sharing_of_scripted h)

theorem records_call (r : Records) (c : RecordCall) : (r.call c).2.table = r.table ∧
    ∀ a, (r.call c).1 = .ok a → a = r.table.answer c := by
  simp only [Records.call]
  split
  · exact ⟨rfl, fun a ha => nomatch ha⟩
  · split
    · exact ⟨rfl, fun a ha => nomatch ha⟩
    · exact ⟨rfl, fun a ha => (Except.ok.inj ha).symm⟩
    · exact ⟨rfl, fun a ha => (Except.ok.inj ha).symm⟩

theorem sharing_tabled_of_scripted {w v : World} {e : Event} (h : scripted w e v) :
    (sharing Eq).tabled (w.store.memory, w.records.table) e (v.store.memory, v.records.table) := by
  refine ⟨sharing_of_scripted h, ?_⟩
  obtain ⟨r, x⟩ := e
  cases r with
  | records c =>
    cases h
    obtain ⟨htable, hanswer⟩ := records_call w.records c
    change w.records.table.Grows (w.records.call c).2.table ∧
      ∀ a, (w.records.call c).1 = .ok a → a = (w.records.call c).2.table.answer c
    rw [htable]
    exact ⟨.refl _, hanswer⟩
  | store c | chain c | depth | chainIds | sampleClock | millis | instant | token | requestId
  | send e | measure m | launch d n | hold l | letGo l | pause i s =>
    cases h
    rfl

theorem tabled_of_scripted {w v : World} {e : Event} (h : scripted w e v) :
    shared.tabled (w.store.memory, w.records.table) e (v.store.memory, v.records.table) :=
  tabled_map (f := id) (fun _ _ _ => shared_of_sharing) (sharing_tabled_of_scripted h)

end Surroundings

namespace Simulation
open Surroundings

variable {α σ : Type}

/-- The events of a program within so many steps, what is left of it, and the world after them. -/
def trace : Nat → Program α → World → List Event × Program α × World
  | 0, p, w => ([], p, w)
  | _ + 1, .done a, w => ([], .done a, w)
  | n + 1, .ask r k, w =>
    let rest := trace n (k (w.reply r).1) (w.reply r).2
    (⟨r, (w.reply r).1⟩ :: rest.1, rest.2)
  | n + 1, .call l k, w => trace n (l.body.bind k) w

theorem leads_trace (n : Nat) (p : Program α) (w : World) :
    p.Leads scripted w (trace n p w).1 (trace n p w).2.1 (trace n p w).2.2 := by
  induction n generalizing p w with
  | zero => exact .refl p w
  | succ n ih =>
    cases p with
    | done a => exact .refl _ w
    | ask r k => exact .ask rfl (ih _ _)
    | call l k => exact .call (ih _ _)

structure Turn where
  task : Task
  change : World → World

def play (s : Setup) (n : Nat) : List Turn → World → List Tick × World
  | [], w => ([], w)
  | turn :: turns, w =>
    let tick := trace n (s.tick turn.task).run (turn.change w)
    let rest := play s n turns tick.2.2
    (⟨turn.task, tick.1, tick.2.1.result?⟩ :: rest.1, rest.2)

theorem runs_play {s : Setup} {S : Surroundings σ} {f : World → σ} {first : σ}
    (hf : ∀ w e v, scripted w e v → S (f w) e (f v)) (n : Nat) (turns : List Turn)
    (same : ∀ turn ∈ turns, ∀ w, f (turn.change w) = f w) {ts : List Tick} {w : World}
    (before : s.Runs S first ts (f w)) :
    s.Runs S first (ts ++ (play s n turns w).1) (f (play s n turns w).2) := by
  induction turns generalizing ts w with
  | nil =>
    rw [play, List.append_nil]
    exact before
  | cons turn turns ih =>
    have run := (leads_trace n (s.tick turn.task).run (turn.change w)).map f hf
    rw [same turn (by simp) w] at run
    have h := ih (fun t ht => same t (by simp [ht])) (before.tick turn.task run)
    rwa [List.append_assoc] at h

theorem runs_play_shared (s : Setup) (n : Nat) (turns : List Turn) (w : World)
    (same : ∀ turn ∈ turns, ∀ w, (turn.change w).store.memory = w.store.memory) :
    s.Runs shared w.store.memory (play s n turns w).1 (play s n turns w).2.store.memory :=
  runs_play (fun _ _ _ => shared_of_scripted) n turns same .start

theorem runs_play_tabled (s : Setup) (n : Nat) (turns : List Turn) (w : World)
    (same : ∀ turn ∈ turns, ∀ w, (turn.change w).store.memory = w.store.memory ∧
      (turn.change w).records.table = w.records.table) :
    s.Runs shared.tabled (w.store.memory, w.records.table) (play s n turns w).1
      ((play s n turns w).2.store.memory, (play s n turns w).2.records.table) :=
  runs_play (f := fun w => (w.store.memory, w.records.table)) (fun _ _ _ => tabled_of_scripted) n turns
    (fun turn ht w => Prod.ext (same turn ht w).1 (same turn ht w).2) .start

def plainSetup : Setup := ⟨{}, true⟩

def quietWorld : World := .initial 64 .empty .empty

end Simulation

namespace Setup

variable {σ : Type} {s : Setup} {S : Surroundings σ} {first w : σ} {ts : List Tick}

theorem Runs.only {allowed : Event → Prop} (run : s.Runs S first ts w)
    (ha : ∀ t ∈ ts, ∀ e ∈ t.events, allowed e) : s.Runs (S.only allowed) first ts w := by
  induction run with
  | start => exact .start
  | @tick ts w u es p before t run ih =>
    exact .tick (ih fun t ht => ha t (by simp [ht])) t (run.only (ha ⟨t, es, p.result?⟩ (by simp)))

theorem Runs.nil_eq {v : σ} (run : s.Runs S first [] v) : v = first := by
  generalize hts : ([] : List Tick) = ts at run
  cases run with
  | start => rfl
  | tick before t run => exact absurd hts (by simp)

/-- Rows that are there from the start might as well have come before the first question. -/
theorem Runs.of_grown {x : σ} {t u : RecordTable} {v : σ × RecordTable} (grows : t.Grows u)
    (run : s.Runs S.tabled (x, u) ts v)
    (asks : ts.head?.any (fun t => t.events.any Event.asksRecords) = true) :
    s.Runs S.tabled (x, t) ts v := by
  induction run with
  | start => cases asks
  | @tick ts w v es p before t' run ih =>
    cases ts with
    | nil =>
      obtain rfl := before.nil_eq
      exact .tick .start t' (Surroundings.leads_of_grown grows run asks)
    | cons t'' ts => exact .tick (ih asks) t' run

open Simulation

def mainDeposit (count : UInt32) (block : UInt64) : Deposit :=
  ⟨mainNetwork, 1, "0xdest", count, .asset, "0xtoken", "1", block, "0xhash", 0⟩

def twoDeposits : RecordTable :=
  ⟨[⟨1, mainDeposit 7 20, false⟩, ⟨2, mainDeposit 8 21, false⟩], []⟩

theorem wellKept_twoDeposits : twoDeposits.WellKept :=
  ⟨by decide, by decide, by decide, by decide⟩

def onePerPage : Setup := ⟨{ pageSize := 1 }, true⟩

def depositWorld : World := .initial 64 .empty twoDeposits

end Setup
end BridgeNotifier
