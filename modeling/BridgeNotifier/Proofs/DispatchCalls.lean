import BridgeNotifier.Proofs.Deliveries
import BridgeNotifier.Proofs.LaterTicks
import BridgeNotifier.Proofs.StillScans
set_option autoImplicit false

namespace BridgeNotifier
open Surroundings

namespace Event

def rows : Event → List Deposit
  | ⟨.records (.maturing ..), .ok deposits⟩ => deposits
  | ⟨.records (.depositsAfter ..), .ok rows⟩ => rows.map Prod.snd
  | ⟨.records (.deposit ..), .ok found⟩ => found.toList
  | _ => []

def noticeResult? : Event → Option (Status × NoticeResult)
  | ⟨.measure (.notice status result), _⟩ => some (status, result)
  | _ => none

end Event

def rowsRead (es : List Event) : List Deposit :=
  es.flatMap Event.rows

def noticeResults (es : List Event) : List (Status × NoticeResult) :=
  es.filterMap Event.noticeResult?

/-- The rows that the dispatcher was called for so far. -/
def rowsOffered (es : List Event) : List Deposit :=
  (rowsRead es).take (es.countP Event.isOffer)

/-- What a tick has read, the sends that it started, and what it counted about notices. -/
structure Book where
  read : List Deposit
  sends : List Notice
  results : List (Status × NoticeResult)

namespace Book

def blank : Book :=
  ⟨[], [], []⟩

def next (b : Book) (e : Event) : Book :=
  ⟨b.read ++ e.rows, b.sends ++ e.notice?.toList, b.results ++ e.noticeResult?.toList⟩

theorem foldl_next (es : List Event) (b : Book) : es.foldl next b =
    ⟨b.read ++ rowsRead es, b.sends ++ handed es, b.results ++ noticeResults es⟩ := by
  induction es generalizing b with
  | nil => simp [rowsRead, handed, noticeResults]
  | cons e es ih =>
    rw [List.foldl_cons, ih]
    cases told : e.notice? <;> cases counted : e.noticeResult? <;>
      simp [next, rowsRead, handed, noticeResults, told, counted]

/-- The rows were offered at a stage in turn, up to those that are left. -/
def Leaves (b : Book) (st : Status) (left : List Deposit) : Prop :=
  ∃ offered, b.read = offered ++ left ∧
    b.sends.map (fun n => (n.deposit, n.status)) =
      (offered.filter Deposit.isAsset).map (·, st) ∧
    b.results = (offered.filter fun d => !d.isAsset).map fun _ => (st, .skipped)

def Grows (b c : Book) (k : UInt64) : Prop :=
  UInt64.ofNat c.sends.length = UInt64.ofNat b.sends.length + k

def Counts (b : Book) (st : Status) (k : UInt64) : Prop :=
  b.Leaves st [] ∧ k = UInt64.ofNat b.sends.length

/-- No row is left, and the outcome tells the number of sends. -/
def Reports (b : Book) (st : Status) (o : Outcome) : Prop :=
  b.Leaves st [] ∧ ∀ start stop k, o = .advanced start stop k → k = UInt64.ofNat b.sends.length

variable {b c d : Book} {st : Status} {left : List Deposit} {row : Deposit} {k l : UInt64}

theorem blank_counts : blank.Counts st 0 :=
  ⟨⟨[], rfl, rfl, rfl⟩, rfl⟩

theorem Grows.trans (h : b.Grows c k) (h' : c.Grows d l) : b.Grows d (k + l) := by
  rw [Grows, h', h, UInt64.add_assoc]

theorem Counts.grows (h : b.Counts st k) (grows : b.Grows c l) (closed : c.Leaves st []) :
    c.Counts st (k + l) :=
  ⟨closed, by rw [h.2, ← grows]⟩

theorem Counts.reports (h : b.Counts st k) {start stop : UInt64} :
    b.Reports st (.advanced start stop k) :=
  ⟨h.1, fun _ _ _ same => by cases same; exact h.2⟩

theorem Leaves.reports (h : b.Leaves st []) {o : Outcome}
    (idle : ∀ start stop k, o ≠ .advanced start stop k) : b.Reports st o :=
  ⟨h, fun _ _ _ same => absurd same (idle _ _ _)⟩

theorem Leaves.launch (h : b.Leaves st (row :: left)) (asset : row.isAsset = true)
    (disp : Dispatcher) {n : Notice} (about : n.deposit = row) (hn : n.status = st) :
    (b.next ⟨.launch disp n, ()⟩).Leaves st left ∧ b.Grows (b.next ⟨.launch disp n, ()⟩) 1 := by
  obtain ⟨offered, read, sends, results⟩ := h
  refine ⟨⟨offered ++ [row], ?_, ?_, ?_⟩, ?_⟩
  · simp [next, Event.rows, read]
  · simp [next, Event.notice?, sends, asset, about, hn]
  · simp [next, Event.noticeResult?, results, asset]
  · simp [Grows, next, Event.notice?]

theorem Leaves.skip (h : b.Leaves st (row :: left)) (bare : row.isAsset = false) :
    (b.next ⟨.measure (.notice st .skipped), ()⟩).Leaves st left ∧
      b.Grows (b.next ⟨.measure (.notice st .skipped), ()⟩) 0 := by
  obtain ⟨offered, read, sends, results⟩ := h
  refine ⟨⟨offered ++ [row], ?_, ?_, ?_⟩, ?_⟩
  · simp [next, Event.rows, read]
  · simp [next, Event.notice?, sends, bare]
  · simp [next, Event.noticeResult?, results, bare]
  · simp [Grows, next, Event.notice?]

theorem Leaves.answer (h : b.Leaves st []) {call : RecordCall} {x : Except Error call.Answer} :
    (b.next ⟨.records call, x⟩).Leaves st (Event.rows ⟨.records call, x⟩) ∧
      b.Grows (b.next ⟨.records call, x⟩) 0 := by
  obtain ⟨offered, read, sends, results⟩ := h
  refine ⟨⟨offered, ?_, ?_, ?_⟩, ?_⟩
  · simp [next, read]
  · simpa [next, Event.notice?] using sends
  · simpa [next, Event.noticeResult?] using results
  · simp [Grows, next, Event.notice?]

end Book

def Request.isBooked : Request → Bool
  | .records (.maturing ..) | .records (.depositsAfter ..) | .records (.deposit ..) => true
  | .launch .. | .measure (.notice ..) => true
  | _ => false

theorem Book.next_of_not_isBooked (b : Book) {r : Request} (h : r.isBooked = false) (x : r.Reply) :
    b.next ⟨r, x⟩ = b := by
  have plain : Event.rows ⟨r, x⟩ = [] ∧ Event.notice? ⟨r, x⟩ = none ∧
      Event.noticeResult? ⟨r, x⟩ = none := by
    cases r with
    | records c => cases c <;> first | exact ⟨rfl, rfl, rfl⟩ | cases h
    | measure m => cases m <;> first | exact ⟨rfl, rfl, rfl⟩ | cases h
    | launch d n => cases h
    | _ => exact ⟨rfl, rfl, rfl⟩
  simp [next, plain]

def Surroundings.booking : Surroundings Book :=
  fun b e c => c = b.next e

namespace Setup
open Routine

def rounds (s : Setup) (t : Task) : Contract Book where
  needs
    | .scan sc _ summary, b =>
      sc.dispatcher.enabled = true ∧ sc.status = t.status ∧ b.Counts t.status summary.dispatched
    | .feed s' f _ k, b => s' = s ∧ t = .feed f ∧ b.Counts t.status k
    | _, _ => False
  gives
    | .scan .., _, x, b => Ends (fun _ b => b.Leaves t.status [])
        (fun summary b => b.Counts t.status summary.dispatched) x b
    | .feed .., _, x, b => Ends (fun _ b => b.Leaves t.status [])
        (fun r b => b.Counts t.status r.2) x b
    | _, _, _, _ => False

/-- Some rows may be left while a routine of a tick runs, and none in the end. -/
abbrev Books (s : Setup) (t : Task) {α : Type} (p : Routine α) (b : Book)
    (Q : α → Book → Prop) : Prop :=
  p.Ensures booking (fun b => ∃ left, b.Leaves t.status left) (s.rounds t)
    (fun _ b => b.Leaves t.status []) b Q

variable {s : Setup} {t : Task} {b : Book} {α : Type} {k : UInt64}

def unbooked (b : Book) : Phase booking where
  may r := r.isBooked = false
  holds := (· = b)
  always := (· = b)
  step {w e v} hw he h := by
    obtain rfl : v = b := (h.trans (w.next_of_not_isBooked he e.reply)).trans hw
    exact ⟨rfl, fun _ => rfl⟩

def noLoops : Contract Book :=
  ⟨fun _ _ => False, fun _ _ _ _ => False⟩

theorem books_unbooked {p : Routine α} {Q : α → Book → Prop}
    (passes : (unbooked b).Passes noLoops p) (hb : b.Leaves t.status []) (hQ : ∀ a, Q a b) :
    s.Books t p b Q := by
  have same := Program.Ensures.weaken (D := s.rounds t) (passes b rfl) rfl
    (J := fun b => ∃ left, b.Leaves t.status left) (fun c hc => ⟨[], (hc : c = b) ▸ hb⟩)
    (fun _ _ _ h => h.elim) (fun _ _ _ _ _ h => h.elim)
  refine same.mono fun x c hc => ?_
  obtain rfl : c = b := hc.1
  cases x with
  | ok a => exact hQ a
  | error err => exact hb

theorem ensures_unbooked {r : Request} {C : Contract Book} {Q : r.Reply → Book → Prop}
    (hr : r.isBooked = false) (hb : ∃ left, b.Leaves t.status left) (hQ : ∀ x, Q x b) :
    (Program.request r).Ensures booking (fun b => ∃ left, b.Leaves t.status left) C b Q := by
  rintro x c hc
  obtain rfl : c = b := hc.trans (b.next_of_not_isBooked hr x)
  exact ⟨hb, hQ x⟩

section Pages
variable {d : Dispatcher} {left : List Deposit}

theorem ensures_offer (enabled : d.enabled = true) {n : Notice} (hn : n.status = t.status)
    (h : b.Leaves t.status (n.deposit :: left)) :
    (d.offer n).Ensures booking (fun b => ∃ left, b.Leaves t.status left) (s.rounds t) b
      fun sent c => c.Leaves t.status left ∧ b.Grows c (if sent then 1 else 0) := by
  unfold Dispatcher.offer
  simp only [enabled, Bool.not_true, Bool.false_eq_true, if_false]
  cases asset : n.deposit.isAsset with
  | false =>
    rintro x c rfl
    rw [hn]
    have skipped := h.skip asset
    exact ⟨⟨left, skipped.1⟩, skipped⟩
  | true =>
    rintro x c rfl
    have launched := h.launch asset d rfl hn
    exact ⟨⟨left, launched.1⟩, launched⟩

theorem ensures_offerAll (enabled : d.enabled = true) {ns : List Notice}
    (hns : ∀ n ∈ ns, n.status = t.status) (h : b.Leaves t.status (ns.map Notice.deposit)) :
    (offerAll d ns).Ensures booking (fun b => ∃ left, b.Leaves t.status left) (s.rounds t) b
      fun sent c => c.Leaves t.status [] ∧ b.Grows c sent := by
  induction ns generalizing b with
  | nil => exact ⟨h, (UInt64.add_zero _).symm⟩
  | cons n ns ih =>
    refine Program.ensures_bind ((ensures_offer enabled (hns n (by simp)) h).mono ?_)
    rintro sent c ⟨hc, grown⟩
    refine Program.ensures_bind ((ih (fun n hn => hns n (by simp [hn])) hc).mono ?_)
    rintro rest e ⟨he, more⟩
    exact ⟨he, grown.trans more⟩

theorem books_records {c : RecordCall} {f : c.Answer → Routine α} {Q : α → Book → Prop}
    (h : b.Leaves t.status []) (failed : ∀ err, Event.rows ⟨.records c, .error err⟩ = [])
    (hf : ∀ a e, e.Leaves t.status (Event.rows ⟨.records c, .ok a⟩) → b.Grows e 0 →
      s.Books t (f a) e Q) : s.Books t (Routine.records c >>= f) b Q := by
  refine ensures_bind (ensures_records ?_)
  rintro x e rfl
  obtain ⟨leaves, grown⟩ := h.answer (x := x)
  refine ⟨⟨_, leaves⟩, ?_⟩
  cases x with
  | ok a => exact hf a _ leaves grown
  | error err => rwa [failed] at leaves

theorem books_page {sc : Scan} {offset : UInt64} {summary : ScanSummary}
    (enabled : sc.dispatcher.enabled = true) (hs : sc.status = t.status)
    (h : b.Counts t.status summary.dispatched) :
    s.Books t (sc.page offset summary) b
      fun summary' c => c.Counts t.status summary'.dispatched := by
  refine books_records h.1 (fun _ => rfl) fun rows c hc read => ?_
  refine ensures_bind (ensures_lift (ensures_unbooked rfl ⟨_, hc⟩ fun _ => ?_))
  have about : (rows.map fun d => ({ deposit := d, status := sc.status } : Notice)).map
      Notice.deposit = rows := by simp [Function.comp_def]
  refine ensures_bind (ensures_lift ((ensures_offerAll enabled (by simp [hs])
    (about.symm ▸ hc)).mono fun sent e he => ?_))
  have counts := h.grows (read.trans he.2) he.1
  rw [UInt64.zero_add] at counts
  dsimp only
  split
  · exact ensures_pure counts
  · exact ⟨⟨enabled, hs, counts⟩, fun x _ _ hx => by cases x <;> exact hx⟩

theorem books_announceClaims (enabled : s.dispatcher.enabled = true)
    {rows : List (UInt64 × Claim)} (ht : t.status = .claimed) (h : b.Leaves t.status []) :
    s.Books t (s.announceClaims rows) b fun sent c => c.Leaves t.status [] ∧ b.Grows c sent := by
  induction rows generalizing b with
  | nil => exact ensures_pure ⟨h, (UInt64.add_zero _).symm⟩
  | cons row rows ih =>
    obtain ⟨id, claim⟩ := row
    have rest : ∀ {c : Book} {sent : Bool}, c.Leaves t.status [] →
        b.Grows c (if sent then 1 else 0) → s.Books t (do
          let n ← s.announceClaims rows
          return (if sent then 1 else 0) + n) c
          fun sent c => c.Leaves t.status [] ∧ b.Grows c sent := fun hc grown =>
      ensures_bind ((ih hc).mono fun k e he => ensures_pure ⟨he.1, grown.trans he.2⟩)
    refine books_records h (fun _ => rfl) fun found c hc read => ?_
    cases found with
    | none => exact ensures_bind (ensures_pure (rest hc read))
    | some d =>
      refine ensures_bind (ensures_lift ((ensures_offer enabled
        (n := { deposit := d, status := .claimed, claim := some claim }) ht.symm hc).mono ?_))
      rintro sent e ⟨he, grown⟩
      have both := read.trans grown
      rw [UInt64.zero_add] at both
      exact rest he both

theorem books_feedPage (enabled : s.dispatcher.enabled = true) {f : Feed} {last : UInt64}
    (ht : t = .feed f) (h : b.Leaves t.status []) :
    s.Books t (s.feedPage f last) b
      fun page c => c.Leaves t.status [] ∧ b.Grows c page.dispatched := by
  subst ht
  cases f with
  | deposits =>
    refine books_records h (fun _ => rfl) fun rows c hc read => ?_
    have about : (rows.map fun r => ({ deposit := r.2, status := .created } : Notice)).map
        Notice.deposit = rows.map Prod.snd := by simp
    have created : ∀ n ∈ rows.map fun r => ({ deposit := r.2, status := .created } : Notice),
        n.status = .created := by
      intro n hn
      obtain ⟨r, -, rfl⟩ := List.mem_map.1 hn
      rfl
    refine ensures_bind (ensures_lift ((ensures_offerAll enabled created
      (about.symm ▸ hc)).mono fun sent e he => ensures_pure ⟨he.1, ?_⟩))
    simpa using read.trans he.2
  | claims =>
    refine books_records h (fun _ => rfl) fun rows c hc read => ?_
    refine ensures_bind ((books_announceClaims enabled rfl hc).mono fun sent e he =>
      ensures_pure ⟨he.1, ?_⟩)
    simpa using read.trans he.2

theorem books_feedRound (enabled : s.dispatcher.enabled = true) {f : Feed} {last : UInt64}
    (ht : t = .feed f) (h : b.Counts t.status k) :
    s.Books t (s.feedRound f last k) b fun r c => c.Counts t.status r.2 := by
  refine ensures_bind ((books_feedPage enabled ht h.1).mono fun page c hc => ?_)
  have counts := h.grows hc.2 hc.1
  refine ensures_bind (books_unbooked (Phase.passes_measure rfl) hc.1 fun _ => ?_)
  have left : ∀ last : UInt64, s.Books t (do
      if page.rows < s.pageSize.toUInt64 then return (last, k + page.dispatched)
      ofProgram (Program.loop (.feed s f last (k + page.dispatched)))) c
      fun r c => c.Counts t.status r.2 := by
    intro last
    split
    · exact ensures_pure counts
    · exact ⟨⟨rfl, ht, counts⟩, fun x _ _ hx => by cases x <;> exact hx⟩
  cases page.lastId with
  | none => exact ensures_bind (ensures_pure (left last))
  | some id =>
    refine ensures_bind (books_unbooked (Phase.passes_advance (fun _ => rfl) fun _ _ => rfl)
      hc.1 fun _ => ensures_bind (ensures_pure (left id)))

theorem rounds_kept (enabled : s.dispatcher.enabled = true) :
    (s.rounds t).Kept booking fun b => ∃ left, b.Leaves t.status left := by
  rintro (⟨sc, offset, summary⟩ | ⟨s', f, last, k⟩ | ⟨l, deadline⟩ | ⟨s', t', i, deadline⟩) b - hn
  · exact books_page hn.1 hn.2.1 hn.2.2
  · obtain ⟨rfl, ht, counts⟩ := hn
    exact books_feedRound enabled ht counts
  all_goals exact hn.elim

end Pages

theorem books_get {w : Watermark} {Q : UInt64 → Book → Prop} (hb : b.Leaves t.status [])
    (hQ : ∀ v, Q v b) : s.Books t (Checkpoint.get s.config.namespaceName w) b Q :=
  books_unbooked (Phase.passes_get fun _ => rfl) hb hQ

theorem books_advance {w : Watermark} {value : UInt64} {Q : Bool → Book → Prop}
    (hb : b.Leaves t.status []) (hQ : ∀ v, Q v b) :
    s.Books t (Checkpoint.advance s.config.namespaceName w value) b Q :=
  books_unbooked (Phase.passes_advance (fun _ => rfl) fun _ _ => rfl) hb hQ

theorem books_scan {sc : Scan} (enabled : sc.dispatcher.enabled = true)
    (hs : sc.status = t.status) :
    s.Books t sc.run .blank fun summary c => c.Counts t.status summary.dispatched := by
  have blank : Book.blank.Counts t.status 0 := Book.blank_counts
  unfold Scan.run
  split
  · exact ensures_pure blank
  · exact ⟨⟨enabled, hs, blank⟩, fun x _ _ hx => by cases x <;> exact hx⟩

theorem books_sweepMaturity (enabled : s.dispatcher.enabled = true) :
    s.Books .maturity s.sweepMaturity .blank fun o c => c.Reports .pendingAutoClaim o := by
  have blank : Book.blank.Counts .pendingAutoClaim 0 := Book.blank_counts
  refine ensures_bind (books_get blank.1 fun oldHead => ?_)
  refine ensures_bind (books_unbooked (Phase.passes_chain rfl) blank.1 fun newHead => ?_)
  split
  · exact ensures_pure (blank.1.reports nofun)
  refine ensures_bind (books_unbooked
    (Phase.passes_lift (Phase.keeps_request rfl fun _ => rfl)) blank.1 fun depth => ?_)
  refine ensures_bind (books_unbooked (Phase.passes_get? fun _ => rfl) blank.1 fun scanned => ?_)
  have recorded : ∀ {c : Book} {k : UInt64}, c.Counts .pendingAutoClaim k →
      s.Books .maturity (s.recordHead oldHead newHead k) c
        fun o c => c.Reports .pendingAutoClaim o := fun hc =>
    ensures_bind (books_advance hc.1 fun _ => ensures_bind
      (books_unbooked (Phase.passes_measure rfl) hc.1 fun _ => ensures_pure hc.reports))
  cases matured? oldHead newHead depth scanned with
  | none => exact ensures_bind (ensures_pure (recorded blank))
  | some range =>
    refine ensures_bind ((books_scan enabled rfl).mono fun summary c hc => ?_)
    exact ensures_bind (books_advance hc.1 fun _ => ensures_bind (ensures_pure (recorded hc)))

theorem books_sweepBatch (enabled : s.dispatcher.enabled = true) (r : Role) :
    s.Books (.batch r) (s.sweepBatch r) .blank fun o c => c.Reports r.status o := by
  have blank : Book.blank.Counts r.status 0 := Book.blank_counts
  refine ensures_bind (books_unbooked (Phase.passes_chain rfl) blank.1 fun latest => ?_)
  refine ensures_bind (books_get blank.1 fun stored => ?_)
  split
  · exact ensures_pure (blank.1.reports nofun)
  refine ensures_bind (books_unbooked (Phase.passes_chain rfl) blank.1 fun newCeiling => ?_)
  refine ensures_bind (books_get blank.1 fun oldCeiling => ?_)
  have recorded : ∀ {c : Book} {k : UInt64}, c.Counts r.status k →
      s.Books (.batch r) (s.recordBatch r stored latest k) c
        fun o c => c.Reports r.status o := by
    intro c k hc
    refine ensures_bind (books_advance hc.1 fun _ => ensures_bind
      (books_unbooked (Phase.passes_measure rfl) hc.1 fun _ => ensures_bind
        (books_unbooked ?_ hc.1 fun _ => ensures_pure hc.reports)))
    exact Phase.passes_recordDuration rfl (fun _ => rfl) rfl (fun _ => rfl) (fun _ => rfl) rfl
  have settled : ∀ {c : Book} {k : UInt64}, c.Counts r.status k →
      s.Books (.batch r) (s.settleBatch r newCeiling stored latest k) c
        fun o c => c.Reports r.status o := by
    intro c k hc
    refine ensures_bind (books_advance hc.1 fun moved => ?_)
    cases moved with
    | false => exact recorded hc
    | true =>
      exact ensures_bind (books_unbooked (Phase.passes_measure rfl) hc.1 fun _ => recorded hc)
  split
  · refine ensures_bind ((books_scan enabled rfl).mono fun summary c hc => ?_)
    exact ensures_bind (ensures_pure (settled hc))
  · exact ensures_bind (ensures_pure (settled blank))

theorem books_sweepFeed (f : Feed) :
    s.Books (.feed f) (s.sweepFeed f) .blank fun o c => c.Reports (Task.feed f).status o := by
  have blank : Book.blank.Counts (Task.feed f).status 0 := Book.blank_counts
  refine ensures_bind (books_unbooked (Phase.passes_get? fun _ => rfl) blank.1 fun mark => ?_)
  cases mark with
  | none =>
    have latest : (unbooked Book.blank).Passes noLoops (latestId f) := by
      cases f <;> exact Phase.passes_records rfl
    refine ensures_bind (books_unbooked latest blank.1 fun last => ?_)
    exact ensures_bind (books_unbooked (Phase.passes_seed (fun _ => rfl) fun _ _ => rfl) blank.1
      fun _ => ensures_pure (blank.1.reports nofun))
  | some start =>
    have followed : s.Books (.feed f) (ofProgram (Program.loop (.feed s f start 0))) .blank
        fun r c => c.Counts (Task.feed f).status r.2 :=
      ⟨⟨rfl, rfl, blank⟩, fun x _ _ hx => by cases x <;> exact hx⟩
    refine ensures_bind (followed.mono ?_)
    rintro ⟨last, k⟩ c hc
    dsimp only
    split
    · exact ensures_pure (hc.1.reports nofun)
    · exact ensures_bind (books_unbooked (Phase.passes_measure rfl) hc.1 fun _ =>
        ensures_pure hc.reports)

theorem books_sweep (enabled : s.dispatcher.enabled = true) :
    s.Books t (s.sweep t) .blank fun o c => c.Reports t.status o := by
  cases t with
  | maturity => exact books_sweepMaturity enabled
  | batch r => exact books_sweepBatch enabled r
  | feed f => exact books_sweepFeed f

theorem unbooked_of_isGuard {r : Request} (h : r.isGuard = true) : r.isBooked = false := by
  cases r with
  | records _ | measure _ | launch _ _ => cases h
  | _ => rfl

theorem books_tick (enabled : s.dispatcher.enabled = true) :
    s.Books t (s.tick t) .blank fun o c => c.Reports t.status o := by
  have blank : Book.blank.Leaves t.status [] := Book.blank_counts.1
  refine ensures_guarded (books_unbooked (Phase.passes_acquire fun _ => unbooked_of_isGuard)
    blank fun l => ?_)
  cases l with
  | none => exact blank.reports nofun
  | some l =>
    refine Program.Ensures.mono (books_sweep enabled) fun x c hc => ?_
    have closed : c.Leaves t.status [] := by cases x <;> first | exact hc | exact hc.1
    exact Program.ensures_bind (ensures_unbooked rfl ⟨[], closed⟩ fun _ =>
      Program.ensures_bind (ensures_unbooked rfl ⟨[], closed⟩ fun _ => hc))

structure Calls (t : Task) (es : List Event) : Prop where
  handed : (handed es).map (fun n => (n.deposit, n.status)) =
    ((rowsOffered es).filter Deposit.isAsset).map (·, t.status)
  results : noticeResults es =
    ((rowsOffered es).filter fun d => !d.isAsset).map fun _ => (t.status, .skipped)

theorem countP_isOffer (es : List Event) :
    es.countP Event.isOffer = (handed es).length + (noticeResults es).length := by
  induction es with
  | nil => rfl
  | cons e es ih =>
    obtain ⟨r, x⟩ := e
    rw [List.countP_cons, ih, handed, handed, noticeResults, noticeResults, List.filterMap_cons,
      List.filterMap_cons]
    cases r with
    | launch d n => simp [Event.isOffer, Event.notice?, Event.noticeResult?]; omega
    | measure m =>
      cases m with
      | notice st r => simp [Event.isOffer, Event.notice?, Event.noticeResult?]; omega
      | _ => rfl
    | _ => rfl

theorem calls_of_leaves {es : List Event} {left : List Deposit}
    (h : (Book.mk (rowsRead es) (handed es) (noticeResults es)).Leaves t.status left) :
    rowsRead es = rowsOffered es ++ left ∧ Calls t es := by
  obtain ⟨offered, read, sends, results⟩ := h
  dsimp only at read sends results
  have assets := congrArg List.length sends
  have bare := congrArg List.length results
  rw [List.length_map, List.length_map, ← List.countP_eq_length_filter] at assets
  rw [List.length_map, ← List.countP_eq_length_filter] at bare
  have both := List.length_eq_countP_add_countP Deposit.isAsset (l := offered)
  simp only [Bool.not_eq_true, Bool.decide_eq_false] at both
  have same : rowsOffered es = offered := by
    rw [rowsOffered, read, countP_isOffer, assets, bare, ← both, List.take_left]
  rw [same]
  exact ⟨read, same ▸ sends, same ▸ results⟩

/-- A tick offers the rows in turn, and all of them before it ends. What it reports is the number of
its sends. -/
theorem calls_of_leads (present : s.transport = true) {es : List Event}
    {p : Program (Except Error Outcome)} (run : (s.tick t).run.Leads anyhow () es p ()) :
    Calls t es ∧ (p.result?.isSome = true → rowsOffered es = rowsRead es) ∧
      ∀ start stop k, p = .done (.ok (.advanced start stop k)) →
        k = UInt64.ofNat (handed es).length := by
  have noted := (run.noted Book.next .blank).map (T := booking) Prod.snd fun _ _ _ h => h.2
  rw [Book.foldl_next] at noted
  simp only [Book.blank, List.nil_append] at noted
  have tick := books_tick (s := s) (t := t) present
  have kept : (s.rounds t).Kept booking fun b => ∃ left, b.Leaves t.status left :=
    rounds_kept present
  have begun : ∃ left, Book.blank.Leaves t.status left := ⟨[], Book.blank_counts.1⟩
  obtain ⟨left, leaves⟩ := Program.Ensures.invariant tick kept begun noted
  refine ⟨(calls_of_leaves leaves).2, fun ended => ?_, fun start stop k ended => ?_⟩
  · obtain ⟨x, hx⟩ := Option.isSome_iff_exists.1 ended
    obtain rfl := Program.eq_done_of_result? hx
    have closed := Program.Ensures.result tick kept begun noted
    have whole : rowsRead es = rowsOffered es ++ [] := by
      cases x with
      | ok o => exact (calls_of_leaves closed.1).1
      | error err => exact (calls_of_leaves closed).1
    rw [whole, List.append_nil]
  · subst ended
    exact (Program.Ensures.result tick kept begun noted).2 start stop k rfl

end Setup
end BridgeNotifier
