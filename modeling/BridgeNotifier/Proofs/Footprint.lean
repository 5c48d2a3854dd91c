import BridgeNotifier.Proofs.Conduct
import Mathlib.Tactic.SplitIfs
set_option autoImplicit false

/-!
# Footprints

What a program may ask for, whatever it is answered: the sweep of a task works on the numbers and
the window of that task, and a delivery asks the store for one average only.
-/
namespace BridgeNotifier

namespace Program

variable {α β σ : Type} {ok : Request → Prop} {loops : Loop → Prop}

/-- All requests and loops of the program are of these. -/
def Within (ok : Request → Prop) (loops : Loop → Prop) : Program α → Prop
  | done _ => True
  | ask r k => ok r ∧ ∀ x, (k x).Within ok loops
  | call l k => loops l ∧ ∀ x, (k x).Within ok loops

theorem within_bind {p : Program α} {f : α → Program β} (hp : p.Within ok loops)
    (hf : ∀ a, (f a).Within ok loops) : (p.bind f).Within ok loops := by
  induction p with
  | done a => exact hf a
  | ask r k ih => exact ⟨hp.1, fun x => ih x (hp.2 x)⟩
  | call l k ih => exact ⟨hp.1, fun x => ih x (hp.2 x)⟩

theorem within_request {r : Request} (h : ok r) : (Program.request r).Within ok loops :=
  ⟨h, fun _ => trivial⟩

theorem Within.mono {ok' : Request → Prop} {p : Program α} (h : p.Within ok loops)
    (wider : ∀ r, ok r → ok' r) : p.Within ok' loops := by
  induction p with
  | done a => trivial
  | ask r k ih => exact ⟨wider r h.1, fun x => ih x (h.2 x)⟩
  | call l k ih => exact ⟨h.1, fun x => ih x (h.2 x)⟩

theorem within_loop {l : Loop} (h : loops l) : (Program.loop l).Within ok loops :=
  ⟨h, fun _ => trivial⟩

variable {S : Surroundings σ} {p q : Program α} {s t : σ} {es : List Event}

theorem Within.rest (hp : p.Within ok loops) (bodies : ∀ l, loops l → l.body.Within ok loops)
    (run : p.Leads S s es q t) : q.Within ok loops ∧ ∀ e ∈ es, ok e.request := by
  induction run with
  | refl p s => exact ⟨hp, by simp⟩
  | ask _ _ ih =>
    obtain ⟨hq, rest⟩ := ih (hp.2 _)
    exact ⟨hq, by simpa [hp.1] using rest⟩
  | call _ ih => exact ih (within_bind (bodies _ hp.1) hp.2)

end Program

namespace Routine

variable {α β : Type} {ok : Request → Prop} {loops : Loop → Prop}

abbrev Within (ok : Request → Prop) (loops : Loop → Prop) (p : Routine α) : Prop :=
  p.run.Within ok loops

theorem within_pure {a : α} : (pure a : Routine α).Within ok loops :=
  trivial

theorem within_bind {p : Routine α} {f : α → Routine β} (hp : p.Within ok loops)
    (hf : ∀ a, (f a).Within ok loops) : (p >>= f).Within ok loops := by
  refine Program.within_bind (f := ExceptT.bindCont f) hp fun r => ?_
  cases r with
  | ok a => exact hf a
  | error e => trivial

theorem within_lift {p : Program α} (hp : p.Within ok loops) :
    Routine.Within ok loops (ExceptT.lift p) :=
  Program.within_bind hp fun _ => trivial

theorem within_store {c : StoreCall} (h : ok (.store c)) : (Routine.store c).Within ok loops :=
  Program.within_request h

theorem within_chain {c : ChainCall} (h : ok (.chain c)) : (Routine.chain c).Within ok loops :=
  Program.within_request h

theorem within_records {c : RecordCall} (h : ok (.records c)) :
    (Routine.records c).Within ok loops :=
  Program.within_request h

theorem within_measure {m : Measurement} (h : ok (.measure m)) :
    (Routine.measure m).Within ok loops :=
  within_lift (Program.within_request h)

end Routine

namespace Dispatcher
open Program

variable {d : Dispatcher}

def inquires (d : Dispatcher) : Request → Prop
  | .store c => c = .getInt d.commitEstimator.averageKey
  | .chainIds | .millis => True
  | _ => False

def asks (d : Dispatcher) : Request → Prop
  | .store c => c = .getInt d.commitEstimator.averageKey
  | .chainIds | .millis | .requestId | .send _ | .measure (.notice ..) => True
  | _ => False

theorem asks_of_inquires {r : Request} (h : d.inquires r) : d.asks r := by
  cases r with
  | store c => exact h
  | chainIds | millis => trivial
  | _ => exact h.elim

theorem within_minutes (deposit : Deposit) (now : UInt64) :
    (d.minutes deposit now).Within d.inquires fun _ => False := by
  unfold Dispatcher.minutes
  split_ifs
  · trivial
  · refine within_bind ?_ fun average => trivial
    refine within_bind (p := d.commitEstimator.storedAverage.run) ?_ fun stored => ?_
    · exact Routine.within_bind (Routine.within_store rfl) fun _ => Routine.within_pure
    · rcases stored with e | _ | v
      · trivial
      · trivial
      · trivial

theorem within_update (d : Dispatcher) (n : Notice) :
    (d.update n).Within d.inquires fun _ => False := by
  refine within_bind (within_request trivial) fun chains => ?_
  split_ifs
  · refine within_bind (within_request trivial) fun now => ?_
    exact within_bind (within_minutes n.deposit now) fun _ => trivial
  · trivial

theorem within_deliver (d : Dispatcher) (n : Notice) :
    (d.deliver n).Within d.asks fun _ => False := by
  have updated : (d.update n).Within d.asks fun _ => False :=
    (d.within_update n).mono fun _ => asks_of_inquires
  refine within_bind updated fun u => ?_
  cases u with
  | none => trivial
  | some u =>
    refine within_bind (within_request trivial) fun id => ?_
    refine within_bind (within_request trivial) fun now => ?_
    exact within_bind (within_request trivial) fun result => within_request trivial

end Dispatcher

def Request.isRenewal : Request → Bool
  | .instant | .pause .. | .store (.extendLock ..) => true
  | _ => false

def Loop.isRenewal : Loop → Bool
  | .renewal .. => true
  | _ => false

namespace Lease
open Program

theorem within_renew (l : Lease) (deadline : Nat) :
    (l.renew deadline).Within (·.isRenewal = true) (·.isRenewal = true) := by
  refine within_bind (within_request rfl) fun due => ?_
  cases due with
  | false => trivial
  | true =>
    refine within_bind (within_request rfl) fun x => ?_
    rcases x with e | _ | _
    · exact within_loop rfl
    · trivial
    · exact within_loop rfl

theorem within_keep (l : Lease) : l.keep.Within (·.isRenewal = true) (·.isRenewal = true) :=
  within_bind (within_request rfl) fun _ => within_loop rfl

end Lease

theorem Loop.within_of_isRenewal {l : Loop} (h : l.isRenewal = true) :
    l.body.Within (·.isRenewal = true) (·.isRenewal = true) := by
  cases l with
  | renewal l deadline => exact l.within_renew deadline
  | _ => cases h

def Task.status : Task → Status
  | .maturity => .pendingAutoClaim
  | .batch r => r.status
  | .feed .deposits => .created
  | .feed .claims => .claimed

namespace Setup
open Routine

def windows (s : Setup) : Task → List String
  | .batch r => [(s.estimator r).windowKey]
  | _ => []

def asks (s : Setup) (t : Task) : Request → Prop
  | .store (.getInt key) | .store (.setInt key _) => key ∈ s.owned t
  | .store (.push key _) | .store (.popOldest key) => key ∈ s.windows t
  | .store _ => False
  | .chain _ | .records _ | .depth | .sampleClock => True
  | .measure (.checkpoint w _) => w.owner = t
  | .measure (.average r _) | .measure (.averageRejected r) => t = .batch r
  | .measure (.page _) | .measure (.notice ..) => True
  | .launch d n => d = s.dispatcher ∧ n.status = t.status
  | _ => False

def pages (s : Setup) (t : Task) : Request → Prop
  | .records _ | .measure (.page _) | .measure (.notice ..) => True
  | .launch d n => d = s.dispatcher ∧ n.status = t.status
  | _ => False

def samples (s : Setup) (r : Role) : Request → Prop
  | .store (.push key _) | .store (.popOldest key) => key = (s.estimator r).windowKey
  | .store (.setInt key _) => key = (s.estimator r).averageKey
  | .sampleClock => True
  | .measure (.average r' _) | .measure (.averageRejected r') => r' = r
  | _ => False

def loops (s : Setup) (t : Task) : Loop → Prop
  | .scan sc _ _ => sc.dispatcher = s.dispatcher ∧ sc.status = t.status
  | .feed s' f _ _ => s' = s ∧ t = .feed f
  | _ => False

variable {s : Setup} {t : Task}

abbrev Sweeps (s : Setup) (t : Task) {α : Type} (p : Routine α) : Prop :=
  p.Within (s.asks t) (s.loops t)

theorem sweeps_get? {w : Watermark} (hw : w.owner = t) :
    s.Sweeps t (Checkpoint.get? s.config.namespaceName w) :=
  within_store (hw ▸ key_mem_owned w)

theorem sweeps_get {w : Watermark} (hw : w.owner = t) :
    s.Sweeps t (Checkpoint.get s.config.namespaceName w) :=
  within_bind (sweeps_get? hw) fun _ => within_pure

theorem sweeps_set {w : Watermark} {value : UInt64} (hw : w.owner = t) :
    s.Sweeps t (Routine.store (.setInt (s.key w) value)) :=
  within_store (hw ▸ key_mem_owned w)

theorem sweeps_advance {w : Watermark} {value : UInt64} (hw : w.owner = t) :
    s.Sweeps t (Checkpoint.advance s.config.namespaceName w value) := by
  refine within_bind (sweeps_get hw) fun current => ?_
  split_ifs
  · exact within_pure
  · exact within_pure
  · exact within_bind (sweeps_set hw) fun _ => within_pure

theorem sweeps_seed {w : Watermark} {value : UInt64} (hw : w.owner = t) :
    s.Sweeps t (Checkpoint.seed s.config.namespaceName w value) := by
  refine within_bind (sweeps_get? hw) fun current => ?_
  split_ifs
  · exact within_pure
  · exact within_bind (sweeps_set hw) fun _ => within_pure

section Pages
variable {loops : Loop → Prop}

theorem asks_of_pages {r : Request} (h : s.pages t r) : s.asks t r := by
  cases r with
  | records c => trivial
  | launch d n => exact h
  | measure m =>
    cases m with
    | page | notice => trivial
    | _ => exact h.elim
  | _ => exact h.elim

theorem pages_offer {n : Notice} (hn : n.status = t.status) :
    (s.dispatcher.offer n).Within (s.pages t) loops := by
  unfold Dispatcher.offer
  split_ifs
  · trivial
  · exact Program.within_bind (Program.within_request trivial) fun _ => trivial
  · exact Program.within_bind (Program.within_request ⟨rfl, hn⟩) fun _ => trivial

theorem pages_offerAll {ns : List Notice} (hns : ∀ n ∈ ns, n.status = t.status) :
    (offerAll s.dispatcher ns).Within (s.pages t) loops := by
  induction ns with
  | nil => trivial
  | cons n ns ih =>
    refine Program.within_bind (pages_offer (hns n (by simp))) fun _ => ?_
    exact Program.within_bind (ih fun n hn => hns n (by simp [hn])) fun _ => trivial

theorem pages_page {sc : Scan} {offset : UInt64} {summary : ScanSummary}
    (next : ∀ offset summary, loops (.scan sc offset summary))
    (hd : sc.dispatcher = s.dispatcher) (hs : sc.status = t.status) :
    (sc.page offset summary).Within (s.pages t) loops := by
  refine within_bind (within_records trivial) fun deposits => ?_
  refine within_bind (within_measure trivial) fun _ => ?_
  rw [hd]
  refine within_bind (within_lift (pages_offerAll (by simp [hs]))) fun sent => ?_
  split_ifs
  · exact within_pure
  · exact Program.within_loop (next _ _)

theorem pages_scan {sc : Scan} (next : ∀ offset summary, loops (.scan sc offset summary)) :
    sc.run.Within (s.pages t) loops := by
  unfold Scan.run
  split_ifs
  · exact within_pure
  · exact Program.within_loop (next _ _)

theorem pages_announceClaims (rows : List (UInt64 × Claim)) :
    (s.announceClaims rows).Within (s.pages (.feed .claims)) loops := by
  induction rows with
  | nil => exact within_pure
  | cons row rows ih =>
    obtain ⟨id, c⟩ := row
    refine within_bind (within_records trivial) fun found => ?_
    have rest : ∀ sent : Bool, Routine.Within (s.pages (.feed .claims)) loops (do
        let n ← s.announceClaims rows
        return (if sent then 1 else 0) + n) :=
      fun sent => within_bind ih fun _ => within_pure
    cases found with
    | none => exact rest false
    | some d => exact within_bind (within_lift (pages_offer rfl)) rest

theorem pages_created (rows : List (UInt64 × Deposit)) :
    (offerAll s.dispatcher (rows.map fun r => { deposit := r.2, status := .created })).Within
      (s.pages (.feed .deposits)) loops := by
  refine pages_offerAll fun n hn => ?_
  obtain ⟨row, -, rfl⟩ := List.mem_map.1 hn
  rfl

theorem pages_feedPage (f : Feed) (last : UInt64) :
    (s.feedPage f last).Within (s.pages (.feed f)) loops := by
  cases f with
  | deposits =>
    refine within_bind (within_records trivial) fun rows => ?_
    exact within_bind (within_lift (pages_created rows)) fun _ => within_pure
  | claims =>
    refine within_bind (within_records trivial) fun rows => ?_
    exact within_bind (pages_announceClaims rows) fun _ => within_pure

theorem asks_of_samples {r : Role} {q : Request} (h : s.samples r q) : s.asks (.batch r) q := by
  cases q with
  | store c =>
    cases c with
    | push key | popOldest key => exact List.mem_singleton.2 h
    | setInt key value =>
      obtain rfl : key = _ := h
      simp [asks, owned]
    | _ => exact h.elim
  | sampleClock => trivial
  | measure m =>
    cases m with
    | average r' v | averageRejected r' => exact congrArg Task.batch h.symm
    | _ => exact h.elim
  | _ => exact h.elim

theorem samples_recordDuration (r : Role) : (s.recordDuration r).Within (s.samples r) loops := by
  have sample : ∀ secs, ((s.estimator r).recordSample secs).Within (s.samples r) loops := by
    intro secs
    refine within_bind (within_store rfl) fun length => ?_
    split_ifs
    · exact within_pure
    refine within_bind (within_store rfl) fun oldest => ?_
    split
    · exact within_pure
    split_ifs
    · exact within_pure
    · exact within_bind (within_store rfl) fun _ => within_pure
  refine within_bind (within_lift (Program.within_request trivial)) fun now => ?_
  refine within_bind (sample (now / 1000)) fun outcome => ?_
  cases outcome with
  | filling n => exact within_pure
  | overflow => exact within_pure
  | accepted average => exact within_measure rfl
  | rejected average => exact within_measure rfl

end Pages

theorem sweeps_page {sc : Scan} {offset : UInt64} {summary : ScanSummary}
    (hd : sc.dispatcher = s.dispatcher) (hs : sc.status = t.status) :
    s.Sweeps t (sc.page offset summary) :=
  (pages_page (fun _ _ => ⟨hd, hs⟩) hd hs).mono fun _ => asks_of_pages

theorem sweeps_scan {sc : Scan} (hd : sc.dispatcher = s.dispatcher) (hs : sc.status = t.status) :
    s.Sweeps t sc.run :=
  (pages_scan fun _ _ => ⟨hd, hs⟩).mono fun _ => asks_of_pages

theorem sweeps_feedPage (f : Feed) (last : UInt64) : s.Sweeps (.feed f) (s.feedPage f last) :=
  (pages_feedPage f last).mono fun _ => asks_of_pages

theorem sweeps_feedRound (f : Feed) (last dispatched : UInt64) :
    s.Sweeps (.feed f) (s.feedRound f last dispatched) := by
  refine within_bind (sweeps_feedPage f last) fun page => ?_
  refine within_bind (within_measure trivial) fun _ => ?_
  have owner : f.watermark.owner = .feed f := by cases f <;> rfl
  have ends : ∀ last' : UInt64, s.Sweeps (.feed f)
      (if page.rows < s.pageSize.toUInt64 then pure (last', dispatched + page.dispatched)
        else Routine.ofProgram (Program.loop (.feed s f last' (dispatched + page.dispatched)))) := by
    intro last'
    split_ifs
    · exact within_pure
    · exact Program.within_loop ⟨rfl, rfl⟩
  cases hid : page.lastId with
  | none => exact ends last
  | some id => exact within_bind (sweeps_advance owner) fun _ => ends id

theorem sweeps_loop {l : Loop} (h : s.loops t l) : l.body.Within (s.asks t) (s.loops t) := by
  cases l with
  | scan sc offset summary => exact sweeps_page h.1 h.2
  | feed s' f last dispatched =>
    obtain ⟨rfl, rfl⟩ := h
    exact sweeps_feedRound f last dispatched
  | renewal _ _ => exact h.elim
  | periodic _ _ _ _ => exact h.elim

theorem sweeps_recordDuration (r : Role) : s.Sweeps (.batch r) (s.recordDuration r) :=
  (samples_recordDuration r).mono fun _ => asks_of_samples

theorem sweeps_sweepMaturity : s.Sweeps .maturity s.sweepMaturity := by
  refine within_bind (sweeps_get rfl) fun oldHead => ?_
  refine within_bind (within_chain trivial) fun newHead => ?_
  split_ifs
  · exact within_pure
  refine within_bind (within_lift (Program.within_request trivial)) fun depth => ?_
  refine within_bind (sweeps_get? rfl) fun lastScanned => ?_
  have scanned : ∀ n : UInt64, s.Sweeps .maturity (s.recordHead oldHead newHead n) := fun n =>
    within_bind (sweeps_advance rfl) fun _ => within_bind (within_measure rfl) fun _ => within_pure
  cases matured? oldHead newHead depth lastScanned with
  | none => exact scanned 0
  | some range =>
    refine within_bind (sweeps_scan rfl rfl) fun summary => ?_
    exact within_bind (sweeps_advance rfl) fun _ => scanned summary.dispatched

theorem sweeps_sweepBatch (r : Role) : s.Sweeps (.batch r) (s.sweepBatch r) := by
  have batch : r.batch.owner = .batch r := by cases r <;> rfl
  have ceiling : r.ceiling.owner = .batch r := by cases r <;> rfl
  refine within_bind (within_chain trivial) fun latest => ?_
  refine within_bind (sweeps_get batch) fun stored => ?_
  split_ifs
  · exact within_pure
  refine within_bind (within_chain trivial) fun newCeiling => ?_
  refine within_bind (sweeps_get ceiling) fun oldCeiling => ?_
  have recorded : ∀ n : UInt64, s.Sweeps (.batch r) (s.recordBatch r stored latest n) := fun n =>
    within_bind (sweeps_advance batch) fun _ => within_bind (within_measure batch) fun _ =>
      within_bind (sweeps_recordDuration r) fun _ => within_pure
  have settled : ∀ n, s.Sweeps (.batch r) (s.settleBatch r newCeiling stored latest n) := by
    intro n
    refine within_bind (sweeps_advance ceiling) fun moved => ?_
    cases moved with
    | false => exact recorded n
    | true => exact within_bind (within_measure ceiling) fun _ => recorded n
  split_ifs
  · exact within_bind (sweeps_scan rfl rfl) fun summary => settled summary.dispatched
  · exact settled 0

theorem sweeps_sweepFeed (f : Feed) : s.Sweeps (.feed f) (s.sweepFeed f) := by
  have owner : f.watermark.owner = .feed f := by cases f <;> rfl
  refine within_bind (sweeps_get? owner) fun mark => ?_
  cases mark with
  | none =>
    have latest : s.Sweeps (.feed f) (latestId f) := by
      cases f with
      | deposits => exact within_records trivial
      | claims => exact within_records trivial
    exact within_bind latest fun _ => within_bind (sweeps_seed owner) fun _ => within_pure
  | some start =>
    have round : s.Sweeps (.feed f) (Routine.ofProgram (Program.loop (.feed s f start 0))) :=
      Program.within_loop ⟨rfl, rfl⟩
    refine within_bind round fun ends => ?_
    obtain ⟨last, dispatched⟩ := ends
    dsimp only
    split_ifs
    · exact within_pure
    · exact within_bind (within_measure owner) fun _ => within_pure

/-- A sweep asks for nothing that belongs to another task. -/
theorem sweeps_sweep (t : Task) : s.Sweeps t (s.sweep t) := by
  cases t with
  | maturity => exact sweeps_sweepMaturity
  | batch r => exact sweeps_sweepBatch r
  | feed f => exact sweeps_sweepFeed f

end Setup
end BridgeNotifier
