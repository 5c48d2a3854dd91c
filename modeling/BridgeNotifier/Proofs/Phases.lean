import BridgeNotifier.Proofs.Feed
import BridgeNotifier.Proofs.Sweep
set_option autoImplicit false

namespace BridgeNotifier

namespace Request

def isScanning : Request → Bool
  | .records _ | .measure _ | .launch _ _ => true
  | _ => false

def isFollowing : Request → Bool
  | .store (.getInt _) | .store (.setInt _ _) => true
  | r => r.isScanning

def isGuard : Request → Bool
  | .token | .store (.tryLock _ _ _) | .hold _ | .letGo _ | .store (.releaseLock _ _) => true
  | _ => false

end Request

structure Phase {σ : Type} (S : Surroundings σ) where
  may : Request → Prop
  holds : σ → Prop
  /-- What is left after a request that failed. -/
  always : σ → Prop
  step : ∀ {w e v}, holds w → may e.request → S w e v → always v ∧ (e.error? = none → holds v)

namespace Phase
open Routine

variable {σ α β : Type} {S : Surroundings σ} (g : Phase S) (C : Contract σ)

def Keeps (p : Program α) : Prop :=
  ∀ w, g.holds w → p.Ensures S g.always C w fun _ v => g.holds v

/-- A routine that stays in a phase unless it fails. -/
def Passes (p : Routine α) : Prop :=
  ∀ w, g.holds w → p.Ensures S g.always C (fun _ _ => True) w fun _ v => g.holds v

/-- A routine that begins in a phase. -/
def Begins (p : Routine α) : Prop :=
  ∀ w, g.holds w → p.Ensures S g.always C (fun _ _ => True) w fun _ _ => True

variable {g C}

theorem keeps_done {a : α} : g.Keeps C (.done a) :=
  fun _ hw => hw

theorem keeps_bind {p : Program α} {f : α → Program β} (hp : g.Keeps C p)
    (hf : ∀ a, g.Keeps C (f a)) : g.Keeps C (p.bind f) :=
  fun w hw => Program.ensures_bind ((hp w hw).mono fun a v hv => hf a v hv)

theorem keeps_request {r : Request} (hr : g.may r) (never : ∀ x, (Event.mk r x).error? = none) :
    g.Keeps C (Program.request r) := by
  intro w hw x v hv
  obtain ⟨always, holds⟩ := g.step hw hr hv
  exact ⟨always, holds (never x)⟩

theorem passes_pure {a : α} : g.Passes C (pure a) :=
  fun _ hw => hw

theorem passes_bind {p : Routine α} {f : α → Routine β} (hp : g.Passes C p)
    (hf : ∀ a, g.Passes C (f a)) : g.Passes C (p >>= f) :=
  fun w hw => ensures_bind ((hp w hw).mono fun a v hv => hf a v hv)

theorem passes_lift {p : Program α} (hp : g.Keeps C p) : g.Passes C (ExceptT.lift p) :=
  fun w hw => ensures_lift (hp w hw)

theorem passes_store {c : StoreCall} (hc : g.may (.store c)) : g.Passes C (.store c) := by
  refine fun w hw => ensures_store fun x v hv => ?_
  obtain ⟨always, holds⟩ := g.step hw hc hv
  cases x with
  | ok a => exact ⟨always, holds rfl⟩
  | error err => exact ⟨always, trivial⟩

theorem passes_records {c : RecordCall} (hc : g.may (.records c)) : g.Passes C (.records c) := by
  refine fun w hw => ensures_records fun x v hv => ?_
  obtain ⟨always, holds⟩ := g.step hw hc hv
  cases x with
  | ok a => exact ⟨always, holds rfl⟩
  | error err => exact ⟨always, trivial⟩

theorem passes_chain {c : ChainCall} (hc : g.may (.chain c)) : g.Passes C (.chain c) := by
  intro w hw x v hv
  obtain ⟨always, holds⟩ := g.step hw hc hv
  cases x with
  | ok a => exact ⟨always, holds rfl⟩
  | error err => exact ⟨always, trivial⟩

theorem passes_measure {m : Measurement} (hm : g.may (.measure m)) : g.Passes C (.measure m) :=
  passes_lift (keeps_request hm fun _ => rfl)

theorem begins_of_passes {p : Routine α} (h : g.Passes C p) : g.Begins C p :=
  fun w hw => (h w hw).mono fun _ _ _ => trivial

theorem begins_bind {p : Routine α} {f : α → Routine β} (hp : g.Passes C p)
    (hf : ∀ a, g.Begins C (f a)) : g.Begins C (p >>= f) :=
  fun w hw => ensures_bind ((hp w hw).mono fun a v hv => hf a v hv)

section Numbers
variable {ns : String} {k : Watermark} {value : UInt64}

theorem passes_get? (get : ∀ key, g.may (.store (.getInt key))) :
    g.Passes C (Checkpoint.get? ns k) :=
  passes_store (get _)

theorem passes_get (get : ∀ key, g.may (.store (.getInt key))) : g.Passes C (Checkpoint.get ns k) :=
  passes_bind (passes_get? get) fun _ => passes_pure

theorem passes_advance (get : ∀ key, g.may (.store (.getInt key)))
    (set : ∀ key value, g.may (.store (.setInt key value))) :
    g.Passes C (Checkpoint.advance ns k value) := by
  refine passes_bind (passes_get get) fun current => ?_
  split
  · exact passes_pure
  · split
    · exact passes_pure
    · exact passes_bind (passes_store (set _ _)) fun _ => passes_pure

theorem passes_seed (get : ∀ key, g.may (.store (.getInt key)))
    (set : ∀ key value, g.may (.store (.setInt key value))) :
    g.Passes C (Checkpoint.seed ns k value) := by
  refine passes_bind (passes_get? get) fun current => ?_
  split
  · exact passes_pure
  · exact passes_bind (passes_store (set _ _)) fun _ => passes_pure

end Numbers

theorem passes_recordDuration {s : Setup} {r : Role} (clock : g.may .sampleClock)
    (push : ∀ now, g.may (.store (.push (s.estimator r).windowKey now)))
    (pop : g.may (.store (.popOldest (s.estimator r).windowKey)))
    (set : ∀ average, g.may (.store (.setInt (s.estimator r).averageKey average)))
    (accepted : ∀ average, g.may (.measure (.average r average)))
    (rejected : g.may (.measure (.averageRejected r))) : g.Passes C (s.recordDuration r) := by
  have sampled : ∀ now, g.Passes C ((s.estimator r).recordSample now) := by
    intro now
    refine passes_bind (passes_store (push now)) fun length => ?_
    split
    · exact passes_pure
    · refine passes_bind (passes_store pop) fun oldest => ?_
      split
      · exact passes_pure
      split
      · exact passes_pure
      · exact passes_bind (passes_store (set _)) fun _ => passes_pure
  refine passes_bind (passes_lift (keeps_request clock fun _ => rfl)) fun now => ?_
  refine passes_bind (sampled (now / 1000)) fun outcome => ?_
  cases outcome with
  | filling k => exact passes_pure
  | overflow => exact passes_pure
  | accepted average => exact passes_measure (accepted average)
  | rejected average => exact passes_measure rejected

section Scans
variable (scanning : ∀ r, r.isScanning = true → g.may r)
include scanning

theorem keeps_offer {d : Dispatcher} {n : Notice} : g.Keeps C (d.offer n) := by
  unfold Dispatcher.offer
  split
  · exact keeps_done
  · split
    · exact keeps_bind (keeps_request (scanning _ rfl) fun _ => rfl) fun _ => keeps_done
    · exact keeps_bind (keeps_request (scanning _ rfl) fun _ => rfl) fun _ => keeps_done

theorem keeps_offerAll {d : Dispatcher} {ns : List Notice} : g.Keeps C (offerAll d ns) := by
  induction ns with
  | nil => exact keeps_done
  | cons n ns ih =>
    exact keeps_bind (keeps_offer scanning) fun _ => keeps_bind ih fun _ => keeps_done

theorem passes_announceClaims {s : Setup} {rows : List (UInt64 × Claim)} :
    g.Passes C (s.announceClaims rows) := by
  induction rows with
  | nil => exact passes_pure
  | cons row rows ih =>
    have rest : ∀ sent : Bool, g.Passes C (do
        let n ← s.announceClaims rows
        return (if sent then 1 else 0) + n) := fun _ => passes_bind ih fun _ => passes_pure
    refine passes_bind (passes_records (scanning _ rfl)) fun d => ?_
    cases d with
    | none => exact passes_bind passes_pure rest
    | some d => exact passes_bind (passes_lift (keeps_offer scanning)) rest

theorem passes_feedPage {s : Setup} {f : Feed} {last : UInt64} : g.Passes C (s.feedPage f last) := by
  cases f with
  | deposits =>
    refine passes_bind (passes_records (scanning _ rfl)) fun rows => ?_
    exact passes_bind (passes_lift (keeps_offerAll scanning)) fun _ => passes_pure
  | claims =>
    refine passes_bind (passes_records (scanning _ rfl)) fun rows => ?_
    exact passes_bind (passes_announceClaims scanning) fun _ => passes_pure

end Scans

def loops (g : Phase S) : Contract σ where
  needs
    | .scan .., w => g.holds w ∧ ∀ r, r.isScanning = true → g.may r
    | .feed .., w => g.holds w ∧ ∀ r, r.isFollowing = true → g.may r
    | _, _ => False
  gives
    | .scan .., _, r, v => Ends (fun _ _ => True) (fun _ v => g.holds v) r v
    | .feed .., _, r, v => Ends (fun _ _ => True) (fun _ v => g.holds v) r v
    | _, _, _, _ => False

theorem passes_scanLoop {sc : Scan} {offset : UInt64} {summary : ScanSummary}
    (scanning : ∀ r, r.isScanning = true → g.may r) :
    g.Passes g.loops (ofProgram (Program.loop (.scan sc offset summary))) := by
  refine fun w hw => ⟨⟨hw, scanning⟩, fun r v _ hr => ?_⟩
  cases r with
  | ok a => exact hr
  | error err => trivial

theorem passes_feedLoop {s : Setup} {f : Feed} {last dispatched : UInt64}
    (following : ∀ r, r.isFollowing = true → g.may r) :
    g.Passes g.loops (ofProgram (Program.loop (.feed s f last dispatched))) := by
  refine fun w hw => ⟨⟨hw, following⟩, fun r v _ hr => ?_⟩
  cases r with
  | ok a => exact hr
  | error err => trivial

theorem passes_scan {sc : Scan} (scanning : ∀ r, r.isScanning = true → g.may r) :
    g.Passes g.loops sc.run := by
  unfold Scan.run
  split
  · exact passes_pure
  · exact passes_scanLoop scanning

theorem passes_page {sc : Scan} {offset : UInt64} {summary : ScanSummary}
    (scanning : ∀ r, r.isScanning = true → g.may r) : g.Passes g.loops (sc.page offset summary) := by
  refine passes_bind (passes_records (scanning _ rfl)) fun rows => ?_
  refine passes_bind (passes_measure (scanning _ rfl)) fun _ => ?_
  refine passes_bind (passes_lift (keeps_offerAll scanning)) fun sent => ?_
  dsimp only
  split
  · exact passes_pure
  · exact passes_scanLoop scanning

theorem passes_feedRound {s : Setup} {f : Feed} {last dispatched : UInt64}
    (following : ∀ r, r.isFollowing = true → g.may r) :
    g.Passes g.loops (s.feedRound f last dispatched) := by
  have scanning : ∀ r, r.isScanning = true → g.may r := by
    intro r hr
    refine following r ?_
    cases r with
    | records c | measure m | launch d n => rfl
    | _ => cases hr
  refine passes_bind (passes_feedPage scanning) fun page => ?_
  refine passes_bind (passes_measure (scanning _ rfl)) fun _ => ?_
  have left : ∀ last : UInt64, g.Passes g.loops (do
      if page.rows < s.pageSize.toUInt64 then return (last, dispatched + page.dispatched)
      ofProgram (Program.loop (.feed s f last (dispatched + page.dispatched)))) := by
    intro last
    split
    · exact passes_pure
    · exact passes_feedLoop following
  have advance : ∀ id, g.Passes g.loops
      (Checkpoint.advance s.config.namespaceName f.watermark id) := fun _ =>
    passes_advance (fun _ => following _ rfl) fun _ _ => following _ rfl
  cases page.lastId with
  | none => exact passes_bind passes_pure left
  | some id => exact passes_bind (advance id) fun _ => passes_bind passes_pure left

theorem loops_kept : g.loops.Kept S g.always := by
  rintro (⟨sc, offset, summary⟩ | ⟨s, f, last, dispatched⟩ | ⟨l, deadline⟩ | ⟨s, t, i, deadline⟩) w - hn
  · exact passes_page hn.2 w hn.1
  · exact passes_feedRound hn.2 w hn.1
  · exact hn.elim
  · exact hn.elim

theorem begins_sweepFeed {s : Setup} {f : Feed} (following : ∀ r, r.isFollowing = true → g.may r) :
    g.Begins g.loops (s.sweepFeed f) := by
  have get : ∀ key, g.may (.store (.getInt key)) := fun _ => following _ rfl
  have set : ∀ key value, g.may (.store (.setInt key value)) := fun _ _ => following _ rfl
  refine begins_bind (passes_get? get) fun start => begins_of_passes ?_
  cases start with
  | none =>
    have latest : g.Passes g.loops (Setup.latestId f) := by
      cases f <;> exact passes_records (following _ rfl)
    exact passes_bind latest fun _ => passes_bind (passes_seed get set) fun _ => passes_pure
  | some start =>
    refine passes_bind (passes_feedLoop following) fun r => ?_
    obtain ⟨last, dispatched⟩ := r
    dsimp only
    split
    · exact passes_pure
    · exact passes_bind (passes_measure (following _ rfl)) fun _ => passes_pure

theorem passes_acquire {key : String} {ttl : Interval} (may : ∀ r, r.isGuard = true → g.may r) :
    g.Passes C (Lock.acquire key ttl) := by
  refine passes_bind (passes_lift (keeps_request (may _ rfl) fun _ => rfl)) fun token => ?_
  refine passes_bind (passes_store (may _ rfl)) fun taken => ?_
  cases taken with
  | false => exact passes_pure
  | true =>
    exact passes_bind (passes_lift (keeps_request (may _ rfl) fun _ => rfl)) fun _ => passes_pure

theorem begins_guarded {key : String} {ttl : Interval} {body : Routine Outcome}
    (may : ∀ r, r.isGuard = true → g.may r)
    (leave : ∀ {w e v}, g.always w → e.request.isGuard = true → S w e v → g.always v)
    (h : g.Begins C body) (still : ∀ w, g.holds w → g.always w) :
    g.Begins C (Lock.guarded key ttl body) := by
  refine fun w hw => ensures_guarded ((passes_acquire may w hw).mono fun l v hv => ?_)
  cases l with
  | none => trivial
  | some l =>
    refine (Program.Ensures.keeping (h v hv) (still v hv)).mono fun r u hu => ?_
    refine Program.ensures_bind fun _ x hx => ?_
    have hx := leave hu.1 rfl hx
    refine ⟨hx, Program.ensures_bind fun _ z hz => ⟨leave hx rfl hz, ?_⟩⟩
    cases r with
    | ok o => trivial
    | error err => trivial

end Phase
end BridgeNotifier
