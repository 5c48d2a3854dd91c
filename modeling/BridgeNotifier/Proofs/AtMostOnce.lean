import BridgeNotifier.Proofs.Replay
import BridgeNotifier.Proofs.Settlement
set_option autoImplicit false

namespace BridgeNotifier

def Tick.handOvers (t : Tick) : HandOvers :=
  t.events.foldl HandOvers.next .start

def settledSends (ts : List Tick) : List Subject :=
  ts.flatMap fun t => t.handOvers.settled

/-- The hand-overs that the last tick has not settled yet. -/
def openSends (ts : List Tick) : List Subject :=
  match ts.getLast? with
  | some t => t.handOvers.pending
  | none => []

theorem settledSends_concat (ts : List Tick) (t : Tick) :
    settledSends (ts ++ [t]) = settledSends ts ++ t.handOvers.settled := by
  simp [settledSends]

theorem openSends_concat (ts : List Tick) (t : Tick) :
    openSends (ts ++ [t]) = t.handOvers.pending := by
  simp [openSends]

namespace Setup
open Routine Surroundings Contract

variable {s : Setup} {depth : UInt64} {t : Task} {x : Subject} {base : Nat} {allowed : Event → Prop}
variable {w : Ledger}

variable {m n : Memory × RecordTable} {es : List Event} {p : Program (Except Error Outcome)}
variable {ts : List Tick}

theorem accounted_tick (kept : m.2.WellKept)
    (h : base ≤ tally (t.entries m.2) x (s.passed depth m.1.ints t))
    (run : (s.tick t).run.Leads (shared.tabled.only (Event.depthIn (· = depth))) m es p n) :
    Accounted s depth t x base ((n.1.ints, n.2), es.foldl HandOvers.next .start) ∧
      ∀ o, p.result? = some (.ok o) → (es.foldl HandOvers.next .start).pending = [] := by
  have hS : (ledger (Event.depthIn (· = depth))).Shows Ledger.ints fun _ _ => True := ledger_shows
  have seen := run.map (T := numbers.tabled.only (Event.depthIn (· = depth)))
    (fun w => (w.1.ints, w.2)) fun _ _ _ h =>
      ⟨h.1, tabled_map (S := shared) (f := Memory.ints) (fun _ _ _ => numbers_of_shared) h.2⟩
  have noted := seen.noted HandOvers.next .start
  have hI : Accounted s depth t x base ((m.1.ints, m.2), .start) := ⟨kept, h, Nat.zero_le _⟩
  have htick := hS.ensures_tick (t := t) hI rfl (handing_sweep hI rfl)
  refine ⟨Program.Ensures.invariant htick handing_kept hI noted, fun o ho => ?_⟩
  obtain rfl := Program.eq_done_of_result? ho
  have ended := Program.Ensures.result htick handing_kept hI noted
  exact ended

theorem passed_congr {f g : String → Option UInt64}
    (h : ∀ k : Watermark, k.owner = t → g (s.key k) = f (s.key k)) :
    s.passed depth g t = s.passed depth f t := by
  funext q
  rcases t with _ | r | fd
  · simp only [passed, h .head rfl, h .scanned rfl]
  · simp only [passed, h r.ceiling (by cases r <;> rfl)]
  · simp only [passed, h fd.watermark (by cases fd <;> rfl)]

theorem tally_of_other {t' : Task} (ht : t ≠ t')
    (run : (s.tick t').run.Leads (shared.tabled.only (Event.depthIn (· = depth))) m es p n) :
    tally (t.entries m.2) x (s.passed depth m.1.ints t) ≤
      tally (t.entries n.2) x (s.passed depth n.1.ints t) := by
  have tables : (s.tick t').run.Leads shared.tabled m es p n := run.map id fun _ _ _ h => h.2
  have grows : m.2.Grows n.2 := grows_of_leads tables
  have all : (s.tick t').run.Leads shared m.1 es p n.1 := run.map Prod.fst fun _ _ _ h => h.2.1
  obtain ⟨more, hmore⟩ := t.entries_grows grows
  have hpassed : s.passed depth n.1.ints t = s.passed depth m.1.ints t :=
    passed_congr fun k hk => ints_of_not_owned all (s.key_not_mem_owned (hk.symm ▸ ht.symm))
  rw [hmore, hpassed]
  exact tally_append more

theorem count_eq_zero_of_other {v : Ledger} (h : Accounted s depth t x 0 v)
    (hx : x.task? ≠ some t) : v.settled.count x = 0 ∧ v.pending.count x = 0 := by
  have settled := h.settled
  have pending := h.pending
  rw [tally_eq_zero hx] at settled pending
  omega

/-- What is known of a history: the settled hand-overs of a subject are bounded by the entries that
its task is done with. -/
theorem runs_accounted {m₀ : Memory × RecordTable} (kept : m₀.2.WellKept)
    (run : s.Runs (shared.tabled.only (Event.depthIn (· = depth))) m₀ ts m) (x : Subject) :
    m.2.WellKept ∧
      (∀ t, x.task? = some t →
        (settledSends ts).count x ≤ tally (t.entries m.2) x (s.passed depth m.1.ints t)) ∧
      (x.task? = none → (settledSends ts).count x = 0) ∧
      (settledSends ts ++ openSends ts).count x ≤ m.2.rows x := by
  -- the bound by the entries passed is what carries over to the next tick; the bound by all rows
  -- is lost when a tick forgets what was pending before it
  induction run with
  | start => exact ⟨kept, fun _ _ => Nat.zero_le _, fun _ => rfl, Nat.zero_le _⟩
  | @tick ts w u es p before t run ih =>
    obtain ⟨hkept, hsettled, hnone, -⟩ := ih
    rw [settledSends_concat, openSends_concat, List.count_append, List.count_append,
      List.count_append]
    have hstep : ∀ {base : Nat}, base ≤ tally (t.entries w.2) x (s.passed depth w.1.ints t) →
        Accounted s depth t x base ((u.1.ints, u.2), es.foldl HandOvers.next .start) :=
      fun h => (accounted_tick hkept h run).1
    by_cases hx : x.task? = some t
    · have acc := hstep (hsettled t hx)
      refine ⟨acc.kept, fun t' ht' => ?_, fun hn => ?_, Nat.le_trans acc.total_le ?_⟩
      · obtain rfl := Option.some.inj (hx.symm.trans ht')
        exact acc.settled
      · rw [hx] at hn
        cases hn
      · exact tally_le_rows t u.2
    · have acc := hstep (Nat.zero_le _)
      have settled : (Tick.handOvers ⟨t, es, p.result?⟩).settled.count x = 0 :=
        (count_eq_zero_of_other acc hx).1
      have pending : (Tick.handOvers ⟨t, es, p.result?⟩).pending.count x = 0 :=
        (count_eq_zero_of_other acc hx).2
      have moved : ∀ t', x.task? = some t' →
          (settledSends ts).count x ≤ tally (t'.entries u.2) x (s.passed depth u.1.ints t') :=
        fun t' ht' => Nat.le_trans (hsettled t' ht') <| tally_of_other (fun h => by
          subst h
          exact hx ht') run
      rw [settled, pending]
      refine ⟨acc.kept, moved, hnone, ?_⟩
      cases ht' : x.task? with
      | none =>
        rw [hnone ht']
        exact Nat.zero_le _
      | some t' => exact Nat.le_trans (moved t' ht') (tally_le_rows t' u.2)

theorem pending_of_ok {m₀ : Memory × RecordTable} (kept : m₀.2.WellKept)
    (run : s.Runs (shared.tabled.only (Event.depthIn (· = depth))) m₀ ts m) :
    ∀ t ∈ ts, ∀ o, t.result = some (.ok o) → t.handOvers.pending = [] := by
  induction run with
  | start => exact fun t ht => nomatch ht
  | @tick ts w u es p before t run ih =>
    intro t' ht' o ho
    obtain ht' | ht' := List.mem_append.1 ht'
    · exact ih t' ht' o ho
    · obtain rfl := List.mem_singleton.1 ht'
      have hkept := (runs_accounted kept before (.claim ⟨0, 0, "", 0⟩)).1
      exact (accounted_tick (x := .claim ⟨0, 0, "", 0⟩) hkept (Nat.zero_le _) run).2 o ho

end Setup

def Event.isSend : Event → Bool
  | ⟨.send _, _⟩ => true
  | _ => false

namespace Dispatcher

def sending : Surroundings (Unit × Nat) :=
  Surroundings.noted (fun _ _ _ => True) fun count e => if e.isSend then count + 1 else count

variable {C : Contract (Unit × Nat)} {w : Unit × Nat}

theorem ensures_unsent {r : Request} {Q : r.Reply → Unit × Nat → Prop} (hw : w.2 ≤ 1)
    (hr : ∀ x, Event.isSend ⟨r, x⟩ = false) (h : ∀ x, Q x w) :
    (Program.request r).Ensures sending (·.2 ≤ 1) C w Q := by
  rintro x t ⟨-, ht⟩
  obtain rfl : t = w := Prod.ext rfl (ht.trans (if_neg (by simp [hr x])))
  exact ⟨hw, h x⟩

theorem ensures_averageOrDefault {e : Estimator} (hw : w.2 ≤ 1) :
    e.averageOrDefault.Ensures sending (·.2 ≤ 1) C w fun _ t => t = w := by
  refine Program.ensures_bind (Program.ensures_bind (ensures_unsent hw (fun _ => rfl) fun x => ?_))
  cases x with
  | error err => rfl
  | ok v =>
    simp only [ExceptT.bindCont]
    cases v.filter fun v => 0 < v with
    | none => rfl
    | some average => rfl

theorem ensures_update {d : Dispatcher} {n : Notice} (hw : w.2 ≤ 1) :
    (d.update n).Ensures sending (·.2 ≤ 1) C w fun _ t => t = w := by
  refine Program.ensures_bind (ensures_unsent hw (fun _ => rfl) fun chains => ?_)
  cases n.wantsEstimate with
  | false => rfl
  | true =>
    refine Program.ensures_bind (ensures_unsent hw (fun _ => rfl) fun now => ?_)
    have minutes : (d.minutes n.deposit now).Ensures sending (·.2 ≤ 1) C w fun _ t => t = w := by
      unfold Dispatcher.minutes
      cases n.deposit.fromMain with
      | true => rfl
      | false => exact Program.ensures_bind (ensures_averageOrDefault hw)
    exact Program.ensures_bind minutes

theorem deliver_sends {d : Dispatcher} {n : Notice} {es : List Event} {p : Program Unit}
    (run : (d.deliver n).Leads (fun (_ : Unit) _ _ => True) () es p ()) :
    es.countP Event.isSend ≤ 1 := by
  let C : Contract (Unit × Nat) := ⟨fun _ _ => False, fun _ _ _ _ => False⟩
  have kept : C.Kept sending (·.2 ≤ 1) := fun _ _ _ h => h.elim
  have sent : (d.deliver n).Ensures sending (·.2 ≤ 1) C ((), 0) fun _ _ => True := by
    refine Program.ensures_bind ((ensures_update (by decide)).mono fun u w hw => ?_)
    subst hw
    cases u with
    | none => trivial
    | some u =>
      refine Program.ensures_bind (ensures_unsent (by decide) (fun _ => rfl) fun id => ?_)
      refine Program.ensures_bind (ensures_unsent (by decide) (fun _ => rfl) fun now => ?_)
      rintro x t ⟨-, ht⟩
      have hone : t.2 ≤ 1 := by rw [ht]; exact Nat.le_refl 1
      exact ⟨hone, ensures_unsent hone (fun _ => rfl) fun _ => trivial⟩
  have count : ∀ (es : List Event) (k : Nat),
      es.foldl (fun count e => if e.isSend then count + 1 else count) k =
        k + es.countP Event.isSend := by
    intro es
    induction es with
    | nil => exact fun k => rfl
    | cons e es ih =>
      intro k
      rw [List.foldl_cons, ih, List.countP_cons]
      cases e.isSend with
      | true => exact (by omega : k + 1 + es.countP Event.isSend = k + (es.countP Event.isSend + 1))
      | false => rfl
  have last := sent.invariant kept (by decide) (run.noted _ 0)
  rw [count, Nat.zero_add] at last
  exact last

end Dispatcher
namespace Setup
open Surroundings

variable {s : Setup} {depth : UInt64} {ts : List Tick} {m₀ m : Memory × RecordTable}

/-- At every point of every history, what was settled and what the last tick handed over since are
no more about any subject than there are rows, so a deposit that is in the table once is handed over
once in every status. A tick that ended well settled everything, and a hand-over is one message at
most. -/
theorem sends_at_most_once (kept : m₀.2.WellKept)
    (run : s.Runs (shared.tabled.only (Event.depthIn (· = depth))) m₀ ts m) :
    (∀ x, (settledSends ts ++ openSends ts).count x ≤ m.2.rows x) ∧
    (∀ t ∈ ts, ∀ o, t.result = some (.ok o) → t.handOvers.pending = []) ∧
    ∀ (d : Dispatcher) (n : Notice) (es : List Event) (p : Program Unit),
      (d.deliver n).Leads (fun (_ : Unit) _ _ => True) () es p () → es.countP Event.isSend ≤ 1 :=
  ⟨fun x => (runs_accounted kept run x).2.2.2, pending_of_ok kept run,
    fun _ _ _ _ => Dispatcher.deliver_sends⟩

open Simulation

def lostPage : List Turn :=
  [⟨.maturity, fun w => { w with
      chain := { w.chain with head := 100 }
      records := { w.records with failAfter := some 1 } }⟩,
    ⟨.maturity, id⟩]

theorem runs_lostPage : onePerPage.Runs (shared.tabled.only (Event.depthIn (· = 64)))
    (.empty, twoDeposits) (play onePerPage 60 lostPage depositWorld).1
    ((play onePerPage 60 lostPage depositWorld).2.store.memory,
      (play onePerPage 60 lostPage depositWorld).2.records.table) :=
  (runs_play_tabled onePerPage 60 lostPage depositWorld (by simp [lostPage])).only (by decide +kernel)

theorem sends_at_most_once_lostPage :
    settledSends (play onePerPage 60 lostPage depositWorld).1 =
      [.deposit (mainDeposit 7 20) .pendingAutoClaim, .deposit (mainDeposit 8 21) .pendingAutoClaim] ∧
    ∀ x, (settledSends (play onePerPage 60 lostPage depositWorld).1 ++
      openSends (play onePerPage 60 lostPage depositWorld).1).count x ≤ twoDeposits.rows x := by
  have bounded := (sends_at_most_once wellKept_twoDeposits runs_lostPage).1
  have table : (play onePerPage 60 lostPage depositWorld).2.records.table = twoDeposits := by
    decide +kernel
  rw [table] at bounded
  exact ⟨by decide +kernel, bounded⟩

/-- Counting every hand-over, a deposit can be handed over twice: the tick after a lost page asks
for the pages before it again. -/
theorem not_at_most_once_of_lostPage :
    ¬ ∀ (s : Setup) (depth : UInt64) (ts : List Tick) (m₀ m : Memory × RecordTable),
      m₀.2.WellKept → s.Runs (shared.tabled.only (Event.depthIn (· = depth))) m₀ ts m →
      ∀ x, (ts.flatMap fun t => t.handOvers.settled ++ t.handOvers.pending).count x ≤ m.2.rows x := by
  intro claim
  have bounded := claim _ _ _ _ _ wellKept_twoDeposits runs_lostPage
    (.deposit (mainDeposit 7 20) .pendingAutoClaim)
  revert bounded
  decide +kernel

end Setup
end BridgeNotifier
