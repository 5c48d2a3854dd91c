import BridgeNotifier.Proofs.Completion
import BridgeNotifier.Proofs.Paging
import BridgeNotifier.Proofs.Phases
set_option autoImplicit false

namespace BridgeNotifier

namespace Program

variable {σ α : Type} {S : Surroundings σ} {p q : Program α} {s t u : σ} {es es' : List Event}
variable {a : α}

/-- Where every request of an execution has one answer, whatever else the program does is a part of
that execution. -/
theorem Leads.part_of (whole : p.Leads S s es (.done a) t)
    (forced : ∀ e ∈ es, ∀ s x y t u,
      S s ⟨e.request, x⟩ t → S s ⟨e.request, y⟩ u → x = y ∧ t = u)
    (part : p.Leads S s es' q u) : ∃ rest, es = es' ++ rest ∧ q.Leads S u rest (.done a) t := by
  induction part generalizing es with
  | refl p s => exact ⟨es, rfl, whole⟩
  | ask h _ ih =>
    cases whole with
    | ask h' rest' =>
      obtain ⟨rfl, rfl⟩ := forced _ List.mem_cons_self _ _ _ _ _ h' h
      obtain ⟨rest, rfl, last⟩ := ih rest' fun e he => forced e (by simp [he])
      exact ⟨rest, rfl, last⟩
  | call _ ih =>
    cases whole with
    | call rest' => exact ih rest' forced

end Program

namespace Event

def question? : Event → Option RecordCall
  | ⟨.records c, _⟩ => some c
  | _ => none

def isOffer : Event → Bool
  | ⟨.launch .., _⟩ => true
  | ⟨.measure (.notice ..), _⟩ => true
  | _ => false

end Event

/-- Every question to the record store is answered from one table. -/
def Surroundings.still (t : RecordTable) : Surroundings Unit := fun _ e _ =>
  match e with
  | ⟨.records c, x⟩ => x = .ok (t.answer c)
  | _ => True

namespace Scan
open Surroundings

variable (s : Scan) (t : RecordTable)

def offering (e : DepositEntry) : List Event :=
  if s.dispatcher.enabled then
    if e.deposit.isAsset then [⟨.launch s.dispatcher (s.notice e), ()⟩]
    else [⟨.measure (.notice s.status .skipped), ()⟩]
  else []

def question (offset : UInt64) : RecordCall :=
  .maturing s.network s.range s.pageSize offset

def started (es : List DepositEntry) : Nat :=
  es.countP fun e => s.dispatcher.enabled && e.deposit.isAsset

def pageEvents (offset : Nat) : List Event :=
  ⟨.records (s.question (UInt64.ofNat offset)), .ok (s.rowsAt t offset)⟩ ::
    ⟨.measure (.page s.task), ()⟩ :: (s.pageAt t offset).flatMap s.offering

/-- The whole table was read: page after page, each row once, and counted. -/
structure ReadsAll (es : List Event) (summary : ScanSummary) : Prop where
  questions : ∃ offsets : List UInt64, es.filterMap Event.question? = offsets.map s.question ∧
    offsets.map UInt64.toNat =
      (List.range ((s.found t).length / s.pageSize.toNat + 1)).map (· * s.pageSize.toNat)
  offers : es.filter Event.isOffer = (s.found t).flatMap s.offering
  pages : summary.pages.toNat = (s.found t).length / s.pageSize.toNat + 1
  matched : summary.matched.toNat = (s.found t).length
  dispatched : summary.dispatched.toNat = s.started (s.found t)

structure ReadsFrom (offset pages : Nat) (before : ScanSummary) (es : List Event)
    (after : ScanSummary) : Prop where
  scanning : ∀ e ∈ es, e.request.isScanning = true
  questions : es.filterMap Event.question? = (List.range pages).map fun i =>
    s.question (UInt64.ofNat (offset + i * s.pageSize.toNat))
  offers : es.filter Event.isOffer = ((s.found t).drop offset).flatMap s.offering
  pages : after.pages = before.pages + UInt64.ofNat pages
  matched : after.matched = before.matched + UInt64.ofNat ((s.found t).length - offset)
  dispatched : after.dispatched =
    before.dispatched + UInt64.ofNat (s.started ((s.found t).drop offset))

variable {s t}
variable {before after : ScanSummary} {es : List Event} {offset pages : Nat}

theorem leads_offer (e : DepositEntry) :
    (s.dispatcher.offer (s.notice e)).Leads (still t) () (s.offering e)
      (.done (s.dispatcher.enabled && e.deposit.isAsset)) () := by
  unfold Dispatcher.offer offering
  cases s.dispatcher.enabled with
  | false => exact .refl _ ()
  | true =>
    have same : (s.notice e).deposit.isAsset = e.deposit.isAsset := rfl
    rw [same]
    cases e.deposit.isAsset with
    | false => exact .ask trivial (.refl _ ())
    | true => exact .ask trivial (.refl _ ())

theorem leads_offerAll (es : List DepositEntry) :
    (offerAll s.dispatcher (es.map s.notice)).Leads (still t) () (es.flatMap s.offering)
      (.done (UInt64.ofNat (s.started es))) () := by
  induction es with
  | nil => exact .refl _ ()
  | cons e es ih =>
    have count : (if (s.dispatcher.enabled && e.deposit.isAsset) = true then 1 else 0) +
        UInt64.ofNat (s.started es) = UInt64.ofNat (s.started (e :: es)) := by
      rw [started, started, List.countP_cons, UInt64.ofNat_add, UInt64.add_comm]
      split <;> rfl
    rw [← count]
    exact ((leads_offer e).bind _).trans (ih.bind _)

theorem filterMap_offering (es : List DepositEntry) :
    (es.flatMap s.offering).filterMap Event.question? = [] := by
  induction es with
  | nil => rfl
  | cons e es ih =>
    rw [List.flatMap_cons, List.filterMap_append, ih, List.append_nil, offering]
    split_ifs <;> rfl

theorem filter_offering (es : List DepositEntry) :
    (es.flatMap s.offering).filter Event.isOffer = es.flatMap s.offering := by
  induction es with
  | nil => rfl
  | cons e es ih =>
    rw [List.flatMap_cons, List.filter_append, ih, offering]
    split_ifs <;> rfl

theorem isScanning_offering (e : DepositEntry) :
    ∀ event ∈ s.offering e, event.request.isScanning = true := by
  unfold offering
  split_ifs <;> simp [Request.isScanning]

theorem isScanning_pageEvents (offset : Nat) :
    ∀ event ∈ s.pageEvents t offset, event.request.isScanning = true := by
  intro event mem
  rw [pageEvents, List.mem_cons, List.mem_cons, List.mem_flatMap] at mem
  obtain rfl | rfl | ⟨e, -, mem⟩ := mem
  · rfl
  · rfl
  · exact isScanning_offering e event mem

theorem question_pageEvents (offset : Nat) :
    (s.pageEvents t offset).filterMap Event.question? = [s.question (UInt64.ofNat offset)] :=
  congrArg (s.question (UInt64.ofNat offset) :: ·) (filterMap_offering _)

theorem offers_pageEvents (offset : Nat) :
    (s.pageEvents t offset).filter Event.isOffer = (s.pageAt t offset).flatMap s.offering :=
  filter_offering _

def counting (s : Scan) (t : RecordTable) (offset : Nat) (before : ScanSummary) : ScanSummary :=
  ⟨before.pages + 1, before.matched + UInt64.ofNat (s.rowsAt t offset).length,
    before.dispatched + UInt64.ofNat (s.started (s.pageAt t offset))⟩

def goingOn (s : Scan) (t : RecordTable) (offset : Nat) (before : ScanSummary) :
    Routine ScanSummary :=
  if UInt64.ofNat (s.rowsAt t offset).length < s.pageSize.toUInt64 then
    return s.counting t offset before
  else Routine.ofProgram (Program.loop (.scan s
    (UInt64.ofNat offset + UInt64.ofNat (s.rowsAt t offset).length) (s.counting t offset before)))

theorem length_rowsAt_pageAt (offset : Nat) :
    (s.rowsAt t offset).length = (s.pageAt t offset).length :=
  List.length_map ..

theorem goingOn_short (short : (s.pageAt t offset).length < s.pageSize.toNat) :
    s.goingOn t offset before = pure (s.counting t offset before) := by
  rw [goingOn, if_pos]
  rw [length_rowsAt_pageAt, UInt64.lt_iff_toNat_lt, UInt32.toNat_toUInt64, toNat_length_pageAt]
  exact short

theorem goingOn_full (full : (s.pageAt t offset).length = s.pageSize.toNat) :
    s.goingOn t offset before = Routine.ofProgram (Program.loop
      (.scan s (UInt64.ofNat (offset + s.pageSize.toNat)) (s.counting t offset before))) := by
  rw [goingOn, if_neg]
  · rw [length_rowsAt_pageAt, full, UInt64.ofNat_add]
  · rw [length_rowsAt_pageAt, UInt64.lt_iff_toNat_lt, UInt32.toNat_toUInt64, toNat_length_pageAt]
    omega

theorem leads_page (offset : Nat) (fits : offset < UInt64.size) (before : ScanSummary) :
    (s.page (UInt64.ofNat offset) before).run.Leads (still t) () (s.pageEvents t offset)
      (s.goingOn t offset before).run () := by
  have answer : t.answer (s.question (UInt64.ofNat offset)) = s.rowsAt t offset := by
    have back : (UInt64.ofNat offset).toNat = offset := UInt64.toNat_ofNat_of_lt' fits
    simp only [question, RecordTable.answer, back]
    rfl
  have notices : (s.rowsAt t offset).map (fun d => (⟨d, s.status, none⟩ : Notice)) =
      (s.pageAt t offset).map s.notice := by
    rw [rowsAt, List.map_map]
    rfl
  have offered := leads_offerAll (s := s) (t := t) (s.pageAt t offset)
  rw [← notices] at offered
  refine .ask (t := ()) (congrArg Except.ok answer.symm) ?_
  change Program.Leads _ (.ask (.measure (.page s.task)) _) _ _ _ _
  exact .ask (t := ()) trivial ((offered.bind _).bind _)

theorem ReadsFrom.last (short : (s.pageAt t offset).length < s.pageSize.toNat) :
    s.ReadsFrom t offset 1 before (s.pageEvents t offset) (s.counting t offset before) := by
  have length := length_pageAt (s := s) t offset
  have rest : (s.found t).drop offset = s.pageAt t offset := by
    rw [pageAt, List.take_of_length_le]
    rw [List.length_drop]
    omega
  refine ⟨isScanning_pageEvents offset, ?_, ?_, rfl, ?_, ?_⟩
  · rw [question_pageEvents, List.range_one, List.map_singleton, Nat.zero_mul, Nat.add_zero]
  · rw [offers_pageEvents, rest]
  · rw [counting, length_rowsAt_pageAt, length, Nat.min_eq_right (by omega)]
  · rw [counting, rest]

theorem ReadsFrom.page (full : (s.pageAt t offset).length = s.pageSize.toNat)
    (rest : s.ReadsFrom t (offset + s.pageSize.toNat) pages (s.counting t offset before) es after) :
    s.ReadsFrom t offset (pages + 1) before (s.pageEvents t offset ++ es) after := by
  have length := length_pageAt (s := s) t offset
  have rows : (s.found t).drop offset =
      s.pageAt t offset ++ (s.found t).drop (offset + s.pageSize.toNat) := by
    rw [← full]
    exact drop_page t offset
  refine ⟨?_, ?_, ?_, ?_, ?_, ?_⟩
  · intro e mem
    exact (List.mem_append.1 mem).elim (isScanning_pageEvents offset e) (rest.scanning e)
  · have index : ∀ i, offset + s.pageSize.toNat + i * s.pageSize.toNat =
        offset + (i + 1) * s.pageSize.toNat := fun i => by rw [Nat.add_one_mul]; omega
    rw [List.filterMap_append, question_pageEvents, rest.questions, List.range_succ_eq_map,
      List.map_cons, List.map_map, Nat.zero_mul, Nat.add_zero]
    simp only [index]
    rfl
  · rw [List.filter_append, offers_pageEvents, rest.offers, rows, List.flatMap_append]
  · rw [rest.pages, counting, UInt64.ofNat_add, UInt64.add_assoc, UInt64.add_comm 1]
    rfl
  · rw [rest.matched, counting, length_rowsAt_pageAt, UInt64.add_assoc, ← UInt64.ofNat_add, full]
    congr 2
    omega
  · rw [rest.dispatched, counting, rows, started, started, started, List.countP_append,
      UInt64.ofNat_add, UInt64.add_assoc]

theorem leads_scan (size : 1 ≤ s.pageSize) (few : (s.found t).length + 1 < UInt64.size)
    (le : offset ≤ (s.found t).length) (before : ScanSummary) :
    ∃ es after, (Loop.body (.scan s (UInt64.ofNat offset) before)).Leads (still t) () es
        (.done (.ok after)) () ∧
      s.ReadsFrom t offset (((s.found t).length - offset) / s.pageSize.toNat + 1) before es
        after := by
  have positive : 1 ≤ s.pageSize.toNat := UInt32.le_iff_toNat_le.1 size
  generalize pages : ((s.found t).length - offset) / s.pageSize.toNat = k
  induction k generalizing offset before with
  | zero =>
    have length := length_pageAt (s := s) t offset
    have left := (Nat.div_eq_zero_iff_lt positive).1 pages
    have short : (s.pageAt t offset).length < s.pageSize.toNat := by omega
    have run := leads_page (s := s) (t := t) offset (by omega) before
    rw [goingOn_short short] at run
    exact ⟨_, _, run, .last short⟩
  | succ k ih =>
    have length := length_pageAt (s := s) t offset
    have enough : s.pageSize.toNat ≤ (s.found t).length - offset := by
      refine Nat.le_of_not_lt fun h => ?_
      rw [Nat.div_eq_of_lt h] at pages
      cases pages
    have full : (s.pageAt t offset).length = s.pageSize.toNat := by omega
    have run := leads_page (s := s) (t := t) offset (by omega) before
    rw [goingOn_full full] at run
    have fewer : ((s.found t).length - (offset + s.pageSize.toNat)) / s.pageSize.toNat = k := by
      have oneLess := Nat.div_eq_sub_div positive enough
      rw [pages, Nat.sub_sub] at oneLess
      omega
    obtain ⟨es, after, rest, reads⟩ := ih (by omega) (s.counting t offset before) fewer
    exact ⟨_, after, run.trans (.call (by rwa [Program.bind_done])), reads.page full⟩

theorem ReadsFrom.readsAll (few : (s.found t).length + 1 < UInt64.size)
    (reads : s.ReadsFrom t 0 ((s.found t).length / s.pageSize.toNat + 1) ⟨0, 0, 0⟩ es after) :
    s.ReadsAll t es after := by
  have pages := Nat.div_le_self (s.found t).length s.pageSize.toNat
  have started : s.started (s.found t) ≤ (s.found t).length := List.countP_le_length
  refine ⟨⟨(List.range ((s.found t).length / s.pageSize.toNat + 1)).map fun i =>
    UInt64.ofNat (i * s.pageSize.toNat), ?_, ?_⟩, reads.offers, ?_, ?_, ?_⟩
  · rw [reads.questions, List.map_map]
    simp only [Nat.zero_add]
    rfl
  · rw [List.map_map]
    refine List.map_congr_left fun i hi => UInt64.toNat_ofNat_of_lt' ?_
    -- no offset is behind the last row
    have le := Nat.mul_le_of_le_div _ _ _ (Nat.le_of_lt_succ (List.mem_range.1 hi))
    omega
  · rw [reads.pages, UInt64.zero_add, UInt64.toNat_ofNat_of_lt' (by omega)]
  · rw [reads.matched, UInt64.zero_add, UInt64.toNat_ofNat_of_lt' (by omega), Nat.sub_zero]
  · rw [reads.dispatched, UInt64.zero_add, List.drop_zero, UInt64.toNat_ofNat_of_lt' (by omega)]

theorem forced_of_isScanning {r : Request} (h : r.isScanning = true) {x y : r.Reply} {u v w : Unit}
    (hx : still t w ⟨r, x⟩ u) (hy : still t w ⟨r, y⟩ v) : x = y ∧ u = v := by
  cases r with
  | records c => exact ⟨Eq.trans hx (Eq.symm hy), rfl⟩
  | measure m => exact ⟨rfl, rfl⟩
  | launch d n => exact ⟨rfl, rfl⟩
  | _ => cases h

/-- A scan of a table that stands still has one way to go, and comes to its end. A range without
blocks asks nothing; any other reads all of the table: every page once and every row once, in the
order of the ids. -/
theorem reads_all (s : Scan) (t : RecordTable) (size : 1 ≤ s.pageSize)
    (sorted : t.deposits.Pairwise fun d e => d.id < e.id)
    (few : (s.found t).length + 1 < UInt64.size) :
    ∃ es summary, s.run.run.Leads (still t) () es (.done (.ok summary)) () ∧
      (∀ es' p, s.run.run.Leads (still t) () es' p () → ∃ rest, es = es' ++ rest ∧
        p.Leads (still t) () rest (.done (.ok summary)) ()) ∧
      (s.found t).Pairwise (fun d e => d.id < e.id) ∧
      (s.range.high < s.range.low → es = [] ∧ summary = ⟨0, 0, 0⟩) ∧
      (¬ s.range.high < s.range.low → s.ReadsAll t es summary) := by
  have ordered : (s.found t).Pairwise fun d e => d.id < e.id := sorted.filter _
  by_cases empty : s.range.high < s.range.low
  · have run : s.run.run.Leads (still t) () [] (.done (.ok ⟨0, 0, 0⟩)) () := by
      rw [Scan.run, if_pos empty]
      exact .refl _ ()
    exact ⟨[], _, run, fun es' p => run.part_of fun _ none => (nomatch none), ordered,
      fun _ => ⟨rfl, rfl⟩, absurd empty⟩
  · obtain ⟨es, summary, run, reads⟩ := leads_scan size few (Nat.zero_le _) ⟨0, 0, 0⟩
    have whole : s.run.run.Leads (still t) () es (.done (.ok summary)) () := by
      rw [Scan.run, if_neg empty]
      exact .call (by rwa [Program.bind_done])
    have forced : ∀ e ∈ es, ∀ w x y u v, still t w ⟨e.request, x⟩ u →
        still t w ⟨e.request, y⟩ v → x = y ∧ u = v :=
      fun e mem _ _ _ _ _ => forced_of_isScanning (reads.scanning e mem)
    exact ⟨es, summary, whole, fun es' p => whole.part_of forced, ordered, fun h => absurd h empty,
      fun _ => reads.readsAll few⟩

open Setup

def mixedDeposits : RecordTable :=
  ⟨[⟨1, mainDeposit 7 20, false⟩, ⟨2, { mainDeposit 8 21 with leaf := .message }, false⟩,
    ⟨3, mainDeposit 9 22, true⟩], []⟩

/-- Two rows in pages of one row take three questions. -/
theorem reads_all_mixedDeposits : ∃ es,
    oneByOne.run.run.Leads (still mixedDeposits) () es (.done (.ok ⟨3, 2, 1⟩)) () ∧
    es.filterMap Event.question? = [oneByOne.question 0, oneByOne.question 1, oneByOne.question 2] ∧
    es.filter Event.isOffer =
      [⟨.launch oneByOne.dispatcher (oneByOne.notice ⟨1, mainDeposit 7 20, false⟩), ()⟩,
        ⟨.measure (.notice .pendingAutoClaim .skipped), ()⟩] := by
  obtain ⟨es, ⟨pages, matched, dispatched⟩, run, -, -, -, reads⟩ :=
    reads_all oneByOne mixedDeposits (by decide) (by decide) (by decide)
  obtain ⟨⟨offsets, questions, places⟩, offers, hpages, hmatched, hdispatched⟩ := reads (by decide)
  obtain rfl : pages = 3 := UInt64.toNat_inj.1 hpages
  obtain rfl : matched = 2 := UInt64.toNat_inj.1 hmatched
  obtain rfl : dispatched = 1 := UInt64.toNat_inj.1 hdispatched
  obtain rfl : offsets = [0, 1, 2] :=
    List.map_inj_right (fun _ _ => UInt64.toNat_inj.1) |>.1 places
  exact ⟨es, run, questions, offers⟩

end Scan
end BridgeNotifier
