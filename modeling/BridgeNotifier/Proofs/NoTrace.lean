import BridgeNotifier.Proofs.FeedHistory
import BridgeNotifier.Proofs.Phases
import BridgeNotifier.Proofs.Replicas
import Mathlib.Control.Monad.Basic
set_option autoImplicit false

namespace BridgeNotifier

namespace Request

def isWrite : Request → Bool
  | .store (.setInt _ _) | .store (.push _ _) | .store (.popOldest _) => true
  | _ => false

def isQuestion : Request → Bool
  | .chain _ | .records _ => true
  | _ => false

theorem isWrite_of_isGuard {r : Request} (h : r.isGuard = true) : r.isWrite = false := by
  cases r with
  | store c =>
    cases c with
    | setInt key value | push key timestamp | popOldest key => cases h
    | _ => rfl
  | _ => rfl

theorem setInt_of_isFollowing {r : Request} (h : r.isFollowing = true) (hw : r.isWrite = true) :
    ∃ key value, r = .store (.setInt key value) := by
  cases r with
  | store c =>
    cases c with
    | setInt key value => exact ⟨key, value, rfl⟩
    | push key timestamp | popOldest key => cases h
    | _ => cases hw
  | _ => cases hw

end Request

namespace Event

def isMiss (e : Event) : Bool :=
  e.request.isQuestion && e.error?.isSome

def isLost : Event → Bool
  | ⟨.store (.releaseLock _ _), .ok false⟩ => true
  | _ => false

end Event

/-- What the store keeps: numbers, lists, and how often they were written. -/
def Memory.data (m : Memory) : (String → Option UInt64) × (String → List UInt64) × Nat :=
  (m.ints, m.lists, m.writes)

namespace Surroundings

variable {R : (String → Option Held) → (String → Option Held) → Prop} {m n : Memory} {e : Event}

theorem data_of_shared (h : shared m e n) (he : e.request.isWrite = false) : n.data = m.data := by
  obtain ⟨r, x⟩ := e
  cases r with
  | store c =>
    obtain ⟨leases, now, hx⟩ | ⟨err, -, rfl⟩ := h
    · cases c with
      | tryLock key token ttl =>
        simp only [Memory.call] at hx
        split at hx <;> · cases hx; rfl
      | extendLock key token ttl | releaseLock key token =>
        simp only [Memory.call] at hx
        split at hx
        · split at hx <;> · cases hx; rfl
        · cases hx; rfl
      | getInt key | length key => cases hx; rfl
      | setInt key value | push key timestamp | popOldest key => cases he
    · rfl
  | _ => exact congrArg Memory.data h

theorem lists_of_shared (h : shared m e n)
    (he : e.request.isWrite = true → ∃ key value, e.request = .store (.setInt key value)) :
    n.lists = m.lists := by
  cases hw : e.request.isWrite with
  | false => exact congrArg (·.2.1) (data_of_shared h hw)
  | true =>
    obtain ⟨r, x⟩ := e
    obtain ⟨key, value, rfl⟩ := he hw
    obtain ⟨leases, now, hx⟩ | ⟨err, -, rfl⟩ := h
    · cases hx
      rfl
    · rfl

theorem lease_of_sharing {k : String} (h : sharing R m e n) (hk : k ∉ e.request.lockKey?)
    (others : ∀ f g, R f g → g k = f k) : n.leases k = m.leases k := by
  obtain ⟨r, x⟩ := e
  cases r with
  | store c =>
    obtain ⟨leases, now, hR, hx⟩ | ⟨err, -, rfl⟩ := h
    · have call : timed now { m with leases := leases } ⟨.store c, x⟩ n := .inl hx
      rw [← others _ _ hR]
      obtain same | ⟨key, token, h⟩ := timed_leases call
      · exact congrFun same k
      · obtain ⟨ttl, he, -, hn⟩ | ⟨-, ⟨ttl, he, hn⟩ | ⟨he, hn⟩⟩ := h
        all_goals
          cases he
          rw [hn]
          have other : k ≠ key := fun hkey => hk (Option.mem_def.2 (congrArg some hkey.symm))
          exact Function.update_of_ne other _ _
    · rfl
  | _ => exact congrArg (fun m => m.leases k) h

theorem lease_of_released {key token : String}
    (h : sharing R m ⟨.store (.releaseLock key token), .ok true⟩ n) : n.leases key = none := by
  obtain ⟨leases, now, -, hx⟩ | ⟨err, hx, -⟩ := h
  · by_cases own : (Memory.held? { m with leases := leases } now key).map Held.token = some token
    · rw [Memory.call_releaseLock_own own] at hx
      cases hx
      exact Function.update_self ..
    · rw [Memory.call_releaseLock_other own] at hx
      cases hx
  · cases hx

end Surroundings

namespace Setup
open Request Routine Surroundings

variable {s : Setup} {t : Task} {es : List Event} {err : Error} {e : Event}
variable {R : (String → Option Held) → (String → Option Held) → Prop} {m n : Memory}

/-- After a tick its lock is free, if only questions failed and the lease was not lost. A lock that
nobody else changed is as it was. -/
structure GivesUp (R : (String → Option Held) → (String → Option Held) → Prop) (key : String)
    (es : List Event) (m n : Memory) : Prop where
  free : (∀ e ∈ es, e.error?.isSome = true → e.request.isQuestion = true) →
    (∀ e ∈ es, e.isLost = false) → n.leases key = none
  others : ∀ k, k ≠ key → (∀ f g, R f g → g k = f k) → n.leases k = m.leases k

theorem givesUp_of_leads {r : Except Error Outcome}
    (run : (s.tick t).run.Leads (sharing R) m es (.done r) n) (he : e ∈ es)
    (hq : e.request.isQuestion = true) : GivesUp R (s.lockKey t) es m n := by
  obtain refused | left := closed_of_leads run
  · obtain ⟨token, ttl, taken, rfl⟩ := standing_refused refused
    obtain rfl | he := List.mem_cons.1 he
    · cases hq
    · obtain rfl := List.mem_singleton.1 he
      cases hq
  · refine ⟨fun reached kept => ?_, fun k hk others => ?_⟩
    · obtain ⟨before, token, x, rfl⟩ := standing_left left
      obtain ⟨u, hu⟩ := run.last
      rcases x with failure | _ | _
      · cases reached _ (List.mem_append_right _ (List.mem_singleton.2 rfl)) rfl
      · cases kept _ (List.mem_append_right _ (List.mem_singleton.2 rfl))
      · exact lease_of_released hu
    · refine run.same (f := fun m => m.leases k) fun e he w v hw => ?_
      exact lease_of_sharing hw (fun hkey => hk (lockKey_of_standing left e he k hkey)) others

abbrev missing : Surroundings (Memory × Bool) :=
  shared.noted fun b e => b || e.isMiss

def asking (m : Memory) : Phase missing where
  may r := r.isWrite = false
  holds w := w.1.data = m.data ∧ w.2 = false
  always w := w.2 = true → w.1.data = m.data
  step := by
    rintro w e v ⟨data, answered⟩ hr ⟨hv, hb⟩
    have data := (data_of_shared hv hr).trans data
    refine ⟨fun _ => data, fun he => ⟨data, ?_⟩⟩
    have missed : v.2 = (w.2 || e.isMiss) := hb
    rw [missed, answered, Event.isMiss, he]
    exact Bool.and_false _

def noting (m : Memory) : Phase missing where
  may r := r.isQuestion = false
  holds w := w.2 = false
  always w := w.2 = true → w.1.data = m.data
  step := by
    rintro w e v answered hr ⟨-, hb⟩
    have missed : v.2 = (w.2 || e.isMiss) := hb
    have answered : v.2 = false := by
      rw [missed, answered, Event.isMiss, hr]
      rfl
    exact ⟨fun h => absurd (answered.symm.trans h) (by simp), fun _ => answered⟩

section Phases
variable {α : Type} {C : Contract (Memory × Bool)}

theorem asking_of_noting {p : Routine α} (h : (noting m).Passes C p) : (asking m).Begins C p :=
  fun w hw => (h w hw.2).mono fun _ _ _ => trivial

theorem asking_scan {sc : Scan} : (asking m).Passes (asking m).loops sc.run := by
  refine Phase.passes_scan fun r hr => ?_
  cases r with
  | records c | measure x | launch d k => rfl
  | _ => cases hr

theorem noting_advance {w : Watermark} {ns : String} {value : UInt64} :
    (noting m).Passes C (Checkpoint.advance ns w value) :=
  Phase.passes_advance (fun _ => rfl) fun _ _ => rfl

theorem asking_maturity : (asking m).Begins (asking m).loops s.sweepMaturity := by
  refine Phase.begins_bind (Phase.passes_get fun _ => rfl) fun oldHead => ?_
  refine Phase.begins_bind (Phase.passes_chain rfl) fun newHead => ?_
  dsimp only
  split
  · exact Phase.begins_of_passes Phase.passes_pure
  refine Phase.begins_bind (Phase.passes_lift (Phase.keeps_request rfl fun _ => rfl)) fun depth => ?_
  refine Phase.begins_bind (Phase.passes_get? fun _ => rfl) fun scanned => ?_
  have moved : ∀ n, (noting m).Passes (asking m).loops (s.recordHead oldHead newHead n) := fun _ =>
    Phase.passes_bind noting_advance fun _ =>
      Phase.passes_bind (Phase.passes_measure rfl) fun _ => Phase.passes_pure
  cases matured? oldHead newHead depth scanned with
  | none => exact Phase.begins_bind Phase.passes_pure fun _ => asking_of_noting (moved _)
  | some range =>
    -- the last question is the last page of the scan
    refine Phase.begins_bind asking_scan fun summary => asking_of_noting ?_
    exact Phase.passes_bind noting_advance fun _ => Phase.passes_bind Phase.passes_pure moved

theorem noting_recordDuration {r : Role} : (noting m).Passes C (s.recordDuration r) :=
  Phase.passes_recordDuration rfl (fun _ => rfl) rfl (fun _ => rfl) (fun _ => rfl) rfl

theorem asking_batch {r : Role} : (asking m).Begins (asking m).loops (s.sweepBatch r) := by
  refine Phase.begins_bind (Phase.passes_chain rfl) fun latest => ?_
  refine Phase.begins_bind (Phase.passes_get fun _ => rfl) fun stored => ?_
  dsimp only
  split
  · exact Phase.begins_of_passes Phase.passes_pure
  refine Phase.begins_bind (Phase.passes_chain rfl) fun newCeiling => ?_
  refine Phase.begins_bind (Phase.passes_get fun _ => rfl) fun oldCeiling => ?_
  have recorded : ∀ n, (noting m).Passes (asking m).loops (s.recordBatch r stored latest n) :=
    fun _ => Phase.passes_bind noting_advance fun _ =>
      Phase.passes_bind (Phase.passes_measure rfl) fun _ =>
        Phase.passes_bind noting_recordDuration fun _ => Phase.passes_pure
  have settled : ∀ n, (noting m).Passes (asking m).loops
      (s.settleBatch r newCeiling stored latest n) := by
    intro n
    refine Phase.passes_bind noting_advance fun moved => ?_
    cases moved with
    | false => exact recorded n
    | true => exact Phase.passes_bind (Phase.passes_measure rfl) fun _ => recorded n
  split
  · refine Phase.begins_bind asking_scan fun summary => asking_of_noting ?_
    exact Phase.passes_bind Phase.passes_pure settled
  · exact Phase.begins_bind Phase.passes_pure fun _ => asking_of_noting (settled _)

theorem asking_tick (ht : ∀ f, t ≠ .feed f) : (asking m).Begins (asking m).loops (s.tick t) := by
  have unasked : ∀ e : Event, e.request.isGuard = true → e.isMiss = false := by
    rintro ⟨r, x⟩ hr
    cases r with
    | chain c | records c => cases hr
    | _ => rfl
  refine Phase.begins_guarded (fun _ => isWrite_of_isGuard) ?_ ?_ fun w hw _ => hw.1
  · rintro w e v hw he ⟨hv, hb⟩ hmiss
    have missed : v.2 = (w.2 || e.isMiss) := hb
    rw [missed, unasked e he, Bool.or_false] at hmiss
    exact (data_of_shared hv (isWrite_of_isGuard he)).trans (hw hmiss)
  · cases t with
    | maturity => exact asking_maturity
    | batch r => exact asking_batch
    | feed f => exact absurd rfl (ht f)

end Phases

theorem data_of_missed {p : Program (Except Error Outcome)} (ht : ∀ f, t ≠ .feed f)
    (run : (s.tick t).run.Leads shared m es p n) (he : e ∈ es) (hm : e.isMiss = true) :
    n.data = m.data := by
  have begins := asking_tick (s := s) (m := m) ht (m, false) ⟨rfl, rfl⟩
  have missed : es.any Event.isMiss = true := List.any_eq_true.2 ⟨e, he, hm⟩
  exact Program.Ensures.invariant begins Phase.loops_kept (fun _ => rfl)
    (run.noticed Event.isMiss) missed

def unlisting (m : Memory) : Phase shared where
  may r := r.isWrite = true → ∃ key value, r = .store (.setInt key value)
  holds w := w.lists = m.lists
  always w := w.lists = m.lists
  step := fun hw hr hv => ⟨(lists_of_shared hv hr).trans hw, fun _ => (lists_of_shared hv hr).trans hw⟩

theorem lists_of_feed {f : Feed} {p : Program (Except Error Outcome)}
    (run : (s.tick (.feed f)).run.Leads shared m es p n) : n.lists = m.lists := by
  have guard : ∀ r : Request, r.isGuard = true → (unlisting m).may r :=
    fun r hr hw => absurd ((isWrite_of_isGuard hr).symm.trans hw) (by simp)
  have begins : (unlisting m).Begins (unlisting m).loops (s.tick (.feed f)) :=
    Phase.begins_guarded guard (fun hw he hv => (lists_of_shared hv (guard _ he)).trans hw)
      (Phase.begins_sweepFeed fun _ => setInt_of_isFollowing) fun _ hw => hw
  have kept := Program.Ensures.invariant (begins m rfl) Phase.loops_kept rfl run
  exact kept

theorem isQuestion_of_asksRecords (h : e.asksRecords = true) : e.request.isQuestion = true := by
  obtain ⟨r, x⟩ := e
  cases r with
  | records c => rfl
  | _ => cases h

theorem next_missed (o : Reading) (e : Event) :
    (o.next e).missed = (o.missed || e.asksRecords && e.error?.isSome) := by
  obtain ⟨r, x⟩ := e
  cases r with
  | records c =>
    cases x with
    | error err => simp [Reading.next_error, Event.asksRecords, Event.error?]
    | ok a =>
      have answered : (o.missed || Event.asksRecords ⟨.records c, .ok a⟩ &&
          (Event.error? ⟨.records c, .ok a⟩).isSome) = o.missed := Bool.or_false _
      rw [answered]
      cases c with
      | deposit network count =>
        simp only [Reading.next]
        split <;> rfl
      | _ => rfl
  | store c =>
    cases c with
    | setInt key value => cases x <;> exact (Bool.or_false _).symm
    | _ => exact (Bool.or_false _).symm
  | _ => exact (Bool.or_false _).symm

theorem foldl_missed (es : List Event) (o : Reading) : (es.foldl Reading.next o).missed =
    (o.missed || es.any fun e => e.asksRecords && e.error?.isSome) := by
  induction es generalizing o with
  | nil => exact (Bool.or_false _).symm
  | cons e es ih => rw [List.foldl_cons, ih, next_missed, List.any_cons, Bool.or_assoc]

section Feeds
variable {f : Feed} {T U : RecordTable} {p : Program (Except Error Outcome)}

theorem feed_of_missed (kept : T.WellKept)
    (run : (s.tick (.feed f)).run.Leads shared.tabled (m, T) es p (n, U))
    (hm : (es.foldl Reading.next .start).missed = true) :
    n.ints = ((es.foldl Reading.next .start).full.elim m.ints fun id =>
        Function.update m.ints (s.key f.watermark) (some id)) ∧
      (es.foldl Reading.next .start).sent =
        s.told ((es.foldl Reading.next .start).seen.filterMap Prod.snd) := by
  cases hstart : m.ints (s.key f.watermark) with
  | none =>
    have unset := unset_of_leads kept hstart run
    have full : (es.foldl Reading.next .start).full = none := unset.full
    have seen : (es.foldl Reading.next .start).seen = [] := unset.seen
    refine ⟨?_, ?_⟩
    · rw [full]
      funext k
      by_cases hk : k = s.key f.watermark
      · rw [hk]
        exact (unset.missed hm).trans hstart.symm
      · exact unset.others k hk
    · rw [seen]
      exact unset.sent.trans told_nil.symm
  | some start =>
    have followed := followed_of_leads kept hstart run
    have mark : n.ints (s.key f.watermark) =
        some ((es.foldl Reading.next .start).full.getD start) := (followed.missed hm).1
    refine ⟨?_, (followed.missed hm).2⟩
    funext k
    by_cases hk : k = s.key f.watermark
    · subst hk
      refine mark.trans ?_
      cases (es.foldl Reading.next .start).full with
      | none => exact hstart.symm
      | some id => exact (Function.update_self (s.key f.watermark) (some id) m.ints).symm
    · refine (followed.others k hk).trans ?_
      cases (es.foldl Reading.next .start).full with
      | none => rfl
      | some id => exact (Function.update_of_ne hk _ _).symm

end Feeds

/-- A question that fails leaves no trace: a tick that ends in an error of a chain or of the tables
has changed no number and no list, and a feed only its watermark, which stands at the end of the last
page that was gone through and sent. -/
theorem error_leaves_no_trace (s : Setup)
    (R : (String → Option Held) → (String → Option Held) → Prop) :
    (∀ t m es err e n, (∀ f, t ≠ .feed f) →
      (s.tick t).run.Leads (sharing R) m es (.done (.error err)) n →
      e ∈ es → e.request.isQuestion = true → e.error? = some err →
      n.data = m.data ∧ GivesUp R (s.lockKey t) es m n) ∧
    ∀ f m T es err e n U, T.WellKept →
      (s.tick (.feed f)).run.Leads (sharing R).tabled (m, T) es (.done (.error err)) (n, U) →
      e ∈ es → e.asksRecords = true → e.error? = some err →
      n.ints = ((es.foldl Reading.next .start).full.elim m.ints fun id =>
          Function.update m.ints (s.key f.watermark) (some id)) ∧
        (es.foldl Reading.next .start).sent =
          s.told ((es.foldl Reading.next .start).seen.filterMap Prod.snd) ∧
        n.lists = m.lists ∧ GivesUp R (s.lockKey (.feed f)) es m n := by
  refine ⟨fun t m es err e n ht run he hq herr => ?_, fun f m T es err e n U kept run he hq herr => ?_⟩
  · have missed : e.isMiss = true := by
      rw [Event.isMiss, hq, herr]
      rfl
    have all := run.map (T := shared) id fun _ _ _ => shared_of_sharing
    exact ⟨data_of_missed ht all he missed, givesUp_of_leads run he hq⟩
  · have alone := run.map (T := sharing R) Prod.fst fun _ _ _ h => h.1
    have all := run.map (T := shared.tabled) id fun _ _ _ h =>
      tabled_map (f := id) (fun _ _ _ => shared_of_sharing) h
    have missed : (es.foldl Reading.next .start).missed = true := by
      rw [foldl_missed]
      refine Bool.or_eq_true_iff.2 (.inr (List.any_eq_true.2 ⟨e, he, ?_⟩))
      rw [hq, herr]
      rfl
    obtain ⟨ints, sent⟩ := feed_of_missed kept all missed
    have lists := lists_of_feed (all.map (T := shared) Prod.fst fun _ _ _ h => h.1)
    exact ⟨ints, sent, lists, givesUp_of_leads alone he (isQuestion_of_asksRecords hq)⟩

open Simulation

def interrupted : World :=
  { depositWorld with
    chain := { depositWorld.chain with head := 100 }
    records := { depositWorld.records with failAfter := some 1 } }

/-- The feed has its watermark, and the second question to the tables fails. -/
def interruptedFeed : World :=
  { interrupted with
    store := { interrupted.store with
      memory := { Memory.empty with
        ints := Function.update (fun _ => none) (onePerPage.key .depositFeed) (some 0) } } }

def left (t : Task) (w : World) : Memory :=
  (trace 60 (onePerPage.tick t).run w).2.2.store.memory

theorem leads_of_interrupted {w : World}
    (ended : (trace 60 (onePerPage.tick t).run w).2.1.result? = some (.error Records.interrupted))
    (failed : (trace 60 (onePerPage.tick t).run w).1.any
      (fun e => e.asksRecords && e.error? = some Records.interrupted) = true) :
    (onePerPage.tick t).run.Leads scripted w (trace 60 (onePerPage.tick t).run w).1
        (.done (.error Records.interrupted)) (trace 60 (onePerPage.tick t).run w).2.2 ∧
      ∃ e ∈ (trace 60 (onePerPage.tick t).run w).1,
        e.asksRecords = true ∧ e.error? = some Records.interrupted := by
  have run := leads_trace 60 (onePerPage.tick t).run w
  rw [Program.eq_done_of_result? ended] at run
  obtain ⟨e, he, hf⟩ := List.any_eq_true.1 failed
  rw [Bool.and_eq_true, decide_eq_true_eq] at hf
  exact ⟨run, e, he, hf⟩

theorem error_leaves_no_trace_interrupted :
    ((left .maturity interrupted).data = interrupted.store.memory.data ∧
      (left .maturity interrupted).leases (onePerPage.lockKey .maturity) = none) ∧
    ((left (.feed .deposits) interruptedFeed).ints =
        Function.update interruptedFeed.store.memory.ints (onePerPage.key .depositFeed) (some 1) ∧
      (left (.feed .deposits) interruptedFeed).leases (onePerPage.lockKey (.feed .deposits)) =
        none) := by
  obtain ⟨run, e, he, hq, herr⟩ := leads_of_interrupted (t := .maturity) (w := interrupted)
    (by decide +kernel) (by decide +kernel)
  obtain ⟨run', e', he', hq', herr'⟩ :=
    leads_of_interrupted (t := .feed .deposits) (w := interruptedFeed)
      (by decide +kernel) (by decide +kernel)
  have swept := (error_leaves_no_trace onePerPage Eq).1 .maturity _ _ _ _ _ (fun _ h => nomatch h)
    (run.map (fun w => w.store.memory) fun _ _ _ => sharing_of_scripted) he
    (isQuestion_of_asksRecords hq) herr
  have fed := (error_leaves_no_trace onePerPage Eq).2 .deposits _ _ _ _ _ _ _ wellKept_twoDeposits
    (run'.map (fun w => (w.store.memory, w.records.table)) fun _ _ _ => sharing_tabled_of_scripted)
    he' hq' herr'
  have full : ((trace 60 (onePerPage.tick (.feed .deposits)).run interruptedFeed).1.foldl
      Reading.next .start).full = some 1 := by decide +kernel
  rw [full] at fed
  exact ⟨⟨swept.1, swept.2.free (by decide +kernel) (by decide +kernel)⟩,
    fed.1, fed.2.2.2.free (by decide +kernel) (by decide +kernel)⟩

end Setup
end BridgeNotifier
