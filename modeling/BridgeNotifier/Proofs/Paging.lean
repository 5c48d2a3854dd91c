import BridgeNotifier.Proofs.Announcements
import BridgeNotifier.Proofs.Replay
set_option autoImplicit false

/-!
# Pages of a table that changes

A scan asks for one page after another while somebody else flags rows as ready and adds rows with
larger ids. No row is read twice, whatever is flagged. Rows are missed only when a row that was
already read is flagged before the last page: then the rows after it move up, and the next page
begins too late.
-/
namespace BridgeNotifier

namespace RecordTable

def flag (flagged : DepositEntry → Bool) (e : DepositEntry) : DepositEntry :=
  if flagged e then { e with readyForClaim := true } else e

theorem flag_id (flagged : DepositEntry → Bool) (e : DepositEntry) : (flag flagged e).id = e.id := by
  unfold flag
  split <;> rfl

theorem flag_of_not {flagged : DepositEntry → Bool} {e : DepositEntry} (h : flagged e = false) :
    flag flagged e = e := by
  simp [flag, h]

/-- Somebody flags rows and adds rows with larger ids. -/
structure Changes (t u : RecordTable) : Prop where
  rows : ∃ flagged new, u.deposits = t.deposits.map (flag flagged) ++ new
  kept : u.WellKept

inductive Evolves (first : RecordTable) : List RecordTable → RecordTable → Prop where
  | start : Evolves first [] first
  | change {ts : List RecordTable} {t u : RecordTable} (before : Evolves first ts t)
      (h : t.Changes u) : Evolves first (ts ++ [u]) u

variable {t u : RecordTable}

theorem Changes.refl (h : t.WellKept) : t.Changes t := by
  refine ⟨⟨fun _ => false, [], ?_⟩, h⟩
  rw [List.append_nil, List.map_congr_left fun e _ => flag_of_not rfl, List.map_id']

theorem Evolves.mem {first : RecordTable} {ts : List RecordTable} (h : Evolves first ts t) :
    t ∈ first :: ts := by
  cases h with
  | start => simp
  | change => simp

theorem Changes.id_mem (h : t.Changes u) {id : UInt64} (hid : id ∈ t.deposits.map DepositEntry.id) :
    id ∈ u.deposits.map DepositEntry.id := by
  obtain ⟨flagged, new, hu⟩ := h.rows
  obtain ⟨d, hd, rfl⟩ := List.mem_map.1 hid
  rw [hu, List.map_append, List.map_map]
  exact List.mem_append_left _ (List.mem_map.2 ⟨d, hd, flag_id flagged d⟩)

theorem Changes.sorted (h : t.Changes u) : t.deposits.Pairwise fun d e => d.id < e.id := by
  obtain ⟨flagged, new, hu⟩ := h.rows
  have ids := h.kept.depositIds
  rw [hu] at ids
  refine (List.pairwise_map.1 (List.pairwise_append.1 ids).1).imp fun lt => ?_
  rwa [flag_id, flag_id] at lt

end RecordTable

namespace Scan
open RecordTable

variable (s : Scan)

def pageAt (t : RecordTable) (offset : Nat) : List DepositEntry :=
  ((s.found t).drop offset).take s.pageSize.toNat

def read (ts : List RecordTable) : List DepositEntry :=
  ts.foldl (fun es t => es ++ s.pageAt t es.length) []

/-- No row that was already read is flagged before the last page. -/
def Steady (ts : List RecordTable) : Prop :=
  ∀ before t after, ts = before ++ t :: after → ∀ e ∈ s.read before, e ∈ s.found t

variable {s} {first t u : RecordTable} {ts : List RecordTable}

theorem read_concat (ts : List RecordTable) (u : RecordTable) :
    s.read (ts ++ [u]) = s.read ts ++ s.pageAt u (s.read ts).length := by
  rw [read, List.foldl_append]
  rfl

theorem drop_page (t : RecordTable) (offset : Nat) :
    (s.found t).drop offset =
      s.pageAt t offset ++ (s.found t).drop (offset + (s.pageAt t offset).length) := by
  have rest : ((s.found t).drop offset).drop s.pageSize.toNat =
      (s.found t).drop (offset + (s.pageAt t offset).length) := by
    rw [List.drop_drop, List.drop_eq_drop_iff, pageAt, List.length_take, List.length_drop]
    omega
  rw [← rest, pageAt, List.take_append_drop]

theorem Steady.of_concat (h : s.Steady (ts ++ [u])) :
    s.Steady ts ∧ ∀ e ∈ s.read ts, e ∈ s.found u := by
  refine ⟨fun before t after hts => h before t (after ++ [u]) ?_, h ts u [] rfl⟩
  rw [hts, List.append_assoc, List.cons_append]

theorem nodup_of_sorted {es : List DepositEntry} (h : es.Pairwise fun d e => d.id < e.id) :
    es.Nodup :=
  h.imp fun lt eq => UInt64.ne_of_lt lt (congrArg DepositEntry.id eq)

theorem found_sorted (h : t.WellKept) : (s.found t).Pairwise fun d e => d.id < e.id :=
  h.depositIds.filter _

theorem matures_flag (flagged : DepositEntry → Bool) (es : List DepositEntry) :
    ((es.map (flag flagged)).filter (matures s.network s.range)).Sublist
      (es.filter (matures s.network s.range)) := by
  induction es with
  | nil => exact .slnil
  | cons e es ih =>
    have kept : (es.filter (matures s.network s.range)).Sublist
        ((e :: es).filter (matures s.network s.range)) := (List.sublist_cons_self e es).filter _
    rw [List.map_cons]
    cases hf : flagged e with
    | true =>
      have unfound : matures s.network s.range (flag flagged e) = false := by
        simp [matures, flag, hf]
      rw [List.filter_cons_of_neg (by simp [unfound])]
      exact ih.trans kept
    | false =>
      rw [flag_of_not hf]
      cases hm : matures s.network s.range e with
      | true =>
        rw [List.filter_cons_of_pos hm, List.filter_cons_of_pos hm]
        exact ih.cons_cons e
      | false =>
        rw [List.filter_cons_of_neg (by simp [hm])]
        exact ih.trans kept

theorem found_changes (h : t.Changes u) : ∃ old new, s.found u = old ++ new ∧
    old.Sublist (s.found t) ∧ ∀ id ∈ t.deposits.map DepositEntry.id, ∀ e ∈ new, id < e.id := by
  obtain ⟨flagged, new, hu⟩ := h.rows
  refine ⟨_, new.filter (matures s.network s.range), by rw [found, hu, List.filter_append],
    matures_flag flagged t.deposits, fun id hid e he => ?_⟩
  have ids := h.kept.depositIds
  rw [hu] at ids
  obtain ⟨d, hd, rfl⟩ := List.mem_map.1 hid
  have lt := (List.pairwise_append.1 ids).2.2 _ (List.mem_map_of_mem hd) e (List.mem_filter.1 he).1
  rwa [flag_id] at lt

theorem take_of_sublist {α : Type} {xs ys : List α} (h : xs.Sublist ys) (distinct : ys.Nodup)
    {n : Nat} (all : ∀ a ∈ ys.take n, a ∈ xs) : xs.take n = ys.take n := by
  induction h generalizing n with
  | slnil => rfl
  | @cons xs ys a h ih =>
    cases n with
    | zero => rfl
    | succ n =>
      have mem : a ∈ xs := all a (by simp)
      exact absurd (h.subset mem) (List.nodup_cons.1 distinct).1
  | @cons_cons xs ys a h ih =>
    cases n with
    | zero => rfl
    | succ n =>
      obtain ⟨new, distinct⟩ := List.nodup_cons.1 distinct
      rw [List.take_succ_cons, List.take_succ_cons, ih distinct fun b hb => ?_]
      obtain rfl | hb' := List.mem_cons.1 (all b (by simp [hb]))
      · exact absurd (List.mem_of_mem_take hb) new
      · exact hb'

/-- What is known of the rows that were read: they are in id order, they are still in the table, and
what will be found behind them has larger ids. -/
structure Ordered (s : Scan) (ts : List RecordTable) (t : RecordTable) : Prop where
  sorted : (s.read ts).Pairwise fun d e => d.id < e.id
  known : ∀ d ∈ s.read ts, d.id ∈ t.deposits.map DepositEntry.id
  behind : ∀ d ∈ s.read ts, ∀ e ∈ (s.found t).drop (s.read ts).length, d.id < e.id

theorem Ordered.change (h : Ordered s ts t) (hu : t.Changes u) : Ordered s (ts ++ [u]) u := by
  -- What is found now from here on was found from here on before, or is new: flags move rows up,
  -- never back.
  obtain ⟨old, new, found, sub, larger⟩ := s.found_changes hu
  have ahead : ∀ d ∈ s.read ts, ∀ e ∈ (s.found u).drop (s.read ts).length, d.id < e.id := by
    intro d hd e he
    rw [found, List.drop_append] at he
    obtain he | he := List.mem_append.1 he
    · exact h.behind d hd e ((sub.drop _).subset he)
    · exact larger d.id (h.known d hd) e (List.mem_of_mem_drop he)
  have sorted : ((s.found u).drop (s.read ts).length).Pairwise fun d e => d.id < e.id :=
    (s.found_sorted hu.kept).sublist (List.drop_sublist _ _)
  rw [drop_page] at sorted ahead
  obtain ⟨page, -, cross⟩ := List.pairwise_append.1 sorted
  refine ⟨?_, fun d hd => ?_, fun d hd e he => ?_⟩
  · rw [read_concat]
    exact List.pairwise_append.2
      ⟨h.sorted, page, fun d hd e he => ahead d hd e (List.mem_append_left _ he)⟩
  · rw [read_concat] at hd
    obtain hd | hd := List.mem_append.1 hd
    · exact hu.id_mem (h.known d hd)
    · have mem := (List.mem_filter.1 (List.mem_of_mem_drop (List.mem_of_mem_take hd))).1
      exact List.mem_map_of_mem mem
  · rw [read_concat, List.length_append] at he
    rw [read_concat] at hd
    obtain hd | hd := List.mem_append.1 hd
    · exact ahead d hd e (List.mem_append_right _ he)
    · exact cross d hd e he

theorem ordered_of_evolves (h : Evolves first ts t) : Ordered s ts t := by
  induction h with
  | start => exact ⟨List.Pairwise.nil, nofun, nofun⟩
  | change _ hu ih => exact ih.change hu

theorem read_eq_take (h : Evolves first ts t) (steady : s.Steady ts) :
    s.read ts = (s.found t).take (s.read ts).length := by
  induction h with
  | start => rfl
  | @change ts t u before hu ih =>
    obtain ⟨steady, still⟩ := steady.of_concat
    have known : ∀ d ∈ s.read ts, d.id ∈ t.deposits.map DepositEntry.id :=
      (ordered_of_evolves before).known
    obtain ⟨old, new, found, sub, larger⟩ := s.found_changes hu
    have distinct : (s.found t).Nodup := nodup_of_sorted (hu.sorted.filter _)
    -- No row that was read has gone, so the rows before the offset are the same ones.
    have ofOld : ∀ d ∈ s.read ts, d ∈ old := by
      intro d hd
      have mem := still d hd
      rw [found] at mem
      exact (List.mem_append.1 mem).resolve_right fun hn =>
        UInt64.lt_irrefl _ (larger d.id (known d hd) d hn)
    have ih := ih steady
    have same : old.take (s.read ts).length = s.read ts :=
      (take_of_sublist sub distinct fun d hd => ofOld d (ih ▸ hd)).trans ih.symm
    have first : (s.found u).take (s.read ts).length = s.read ts := by
      have long := congrArg List.length same
      rw [List.length_take] at long
      rw [found, List.take_append_of_le_length (by omega), same]
    have page := congrArg (List.take (s.pageAt u (s.read ts).length).length)
      (drop_page (s := s) u (s.read ts).length)
    rw [List.take_left] at page
    rw [read_concat, List.length_append, List.take_add, first, page]

theorem read_eq_found (h : Evolves first ts t) (steady : s.Steady ts)
    (ended : (s.found t).length ≤ (s.read ts).length) : s.read ts = s.found t := by
  rw [read_eq_take h steady, List.take_of_length_le ended]

end Scan

namespace Event

def notice? : Event → Option Notice
  | ⟨.launch _ n, _⟩ => some n
  | _ => none

theorem notice?_of_quiet {e : Event} (h : e.isQuiet = true) : e.notice? = none := by
  obtain ⟨r, x⟩ := e
  cases r with
  | launch d n => cases h
  | _ => rfl

end Event

def handed (es : List Event) : List Notice :=
  es.filterMap Event.notice?

theorem foldl_notice? (es : List Event) (sent : List Notice) :
    es.foldl (fun sent e => sent ++ e.notice?.toList) sent = sent ++ handed es := by
  induction es generalizing sent with
  | nil => exact (List.append_nil sent).symm
  | cons e es ih =>
    rw [List.foldl_cons, ih, handed, handed, List.filterMap_cons]
    cases e.notice? with
    | none => rw [Option.toList_none, List.append_nil]
    | some n => rw [Option.toList_some, List.append_assoc, List.singleton_append]

abbrev Asked := List RecordTable × RecordTable

namespace Surroundings

variable {σ : Type}

def changing (S : Surroundings σ) : Surroundings (σ × Asked) := fun w e v =>
  S w.1 e v.1 ∧
    match e with
    | ⟨.records c, .ok a⟩ =>
      w.2.2.Changes v.2.2 ∧ v.2.1 = w.2.1 ++ [v.2.2] ∧ a = v.2.2.answer c
    | _ => v.2 = w.2

theorem changing_answer {S : Surroundings σ} {x : σ} {c : RecordCall} {t u : RecordTable}
    {ts : List RecordTable} (h : S x ⟨.records c, .ok (u.answer c)⟩ x) (hu : t.Changes u) :
    S.changing (x, ts, t) ⟨.records c, .ok (u.answer c)⟩ (x, ts ++ [u], u) :=
  ⟨h, hu, rfl, rfl⟩

theorem evolves_of_leads {S : Surroundings σ} {α : Type} {p q : Program α} {w v : σ × Asked}
    {es : List Event} {first : RecordTable} (before : first.Evolves w.2.1 w.2.2)
    (run : p.Leads S.changing w es q v) : first.Evolves v.2.1 v.2.2 := by
  induction run with
  | refl p w => exact before
  | @ask r k x w u v es q h _ ih =>
    refine ih ?_
    cases r with
    | records c =>
      cases x with
      | ok a =>
        obtain ⟨-, changes, asked, -⟩ := h
        exact asked ▸ before.change changes
      | error err => exact (show u.2 = w.2 from h.2) ▸ before
    | _ => exact (show u.2 = w.2 from h.2) ▸ before
  | call _ ih => exact ih before

end Surroundings

abbrev Visit := ((String → Option UInt64) × Asked) × List Notice

namespace Visit

variable (w : Visit)

def asked : List RecordTable := w.1.2.1
def table : RecordTable := w.1.2.2
def sent : List Notice := w.2

end Visit

namespace Surroundings

variable {allowed : Event → Prop} {w v : Visit}

abbrev visit (allowed : Event → Prop) : Surroundings Visit :=
  (numbers.changing.only allowed).noted fun sent e => sent ++ e.notice?.toList

def answers (allowed : Event → Prop) : Error → Visit → Prop :=
  fun err _ => ∃ e, allowed e ∧ e.error? = some err

theorem visit_shows : (visit allowed).Shows (fun w => w.1.1) (answers allowed) where
  quiet := by
    rintro w ⟨r, x⟩ v ⟨⟨-, h⟩, hv⟩ hq
    have hints := eq_of_numbers h.1 hq
    have htable : v.1.2 = w.1.2 := by
      cases r with
      | records c => cases hq
      | _ => exact h.2
    refine Prod.ext (Prod.ext hints htable) (hv.trans ?_)
    dsimp only
    rw [Event.notice?_of_quiet hq, Option.toList_none, List.append_nil]
  read h := h.1.2.1.1
  write h := h.1.2.1
  records h := h.1.2.1
  launch h := h.1.2.1
  depth h := h.1.2.1
  failed h he := ⟨_, h.1.1, he⟩

theorem visit_launch {d : Dispatcher} {n : Notice} (h : visit allowed w ⟨.launch d n, ()⟩ v) :
    v.asked = w.asked ∧ v.table = w.table ∧ v.sent = w.sent ++ [n] :=
  ⟨congrArg Prod.fst h.1.2.2, congrArg Prod.snd h.1.2.2, h.2⟩

theorem visit_answered {c : RecordCall} {a : c.Answer} (h : visit allowed w ⟨.records c, .ok a⟩ v) :
    w.table.Changes v.table ∧ v.asked = w.asked ++ [v.table] ∧ a = v.table.answer c ∧
      v.sent = w.sent :=
  ⟨h.1.2.2.1, h.1.2.2.2.1, h.1.2.2.2.2, h.2.trans (List.append_nil _)⟩

theorem visit_unanswered {c : RecordCall} {err : Error}
    (h : visit allowed w ⟨.records c, .error err⟩ v) :
    v.asked = w.asked ∧ v.table = w.table ∧ v.sent = w.sent ∧ answers allowed err v :=
  ⟨congrArg Prod.fst h.1.2.2, congrArg Prod.snd h.1.2.2, h.2.trans (List.append_nil _),
    _, h.1.1, rfl⟩

end Surroundings

namespace Scan
open Routine Surroundings

variable (s : Scan)

def notice (e : DepositEntry) : Notice :=
  { deposit := e.deposit, status := s.status }

def tells (n : Notice) : Bool :=
  s.dispatcher.enabled && n.deposit.isAsset

def announced (es : List DepositEntry) : List Notice :=
  (es.map s.notice).filter s.tells

/-- What holds at every point: nothing was handed over but rows that were read, in their order, and
all pages but the last were full. -/
structure Following (w : Visit) : Prop where
  sent : w.sent <+: s.announced (s.read w.asked)
  pages : (w.asked.length - 1) * s.pageSize.toNat ≤ 0x8000000000000000

structure Between (offset : UInt64) (w : Visit) : Prop where
  offset : offset.toNat = (s.read w.asked).length
  full : (s.read w.asked).length = w.asked.length * s.pageSize.toNat
  bound : (s.read w.asked).length ≤ 0x8000000000000000
  sent : w.sent = s.announced (s.read w.asked)

structure Ended (w : Visit) : Prop where
  sent : w.sent = s.announced (s.read w.asked)
  short : (s.found w.table).length ≤ (s.read w.asked).length

def reading (allowed : Event → Prop) : Contract Visit where
  needs
    | .scan s' offset _, w => s' = s ∧ s.Between offset w
    | _, _ => False
  gives
    | .scan .., _, r, v => Ends (answers allowed) (fun _ v => s.Ended v) r v
    | _, _, _, _ => False

variable {s} {allowed : Event → Prop} {w v : Visit}

theorem announced_append (es fs : List DepositEntry) :
    s.announced (es ++ fs) = s.announced es ++ s.announced fs := by
  rw [announced, List.map_append, List.filter_append]
  rfl

theorem count_announced {es : List DepositEntry} (sorted : es.Pairwise fun d e => d.id < e.id)
    {e : DepositEntry} (mem : e ∈ es) (told : s.tells (s.notice e) = true)
    (only : ∀ d ∈ es, d.deposit = e.deposit → d = e) : (s.announced es).count (s.notice e) = 1 := by
  have same : ∀ d ∈ es, (s.notice d == s.notice e) = true ↔ (d == e) = true := by
    intro d hd
    rw [beq_iff_eq, beq_iff_eq]
    exact ⟨fun h => only d hd (congrArg Notice.deposit h), congrArg s.notice⟩
  rw [announced, List.count_filter told, List.count, List.countP_map]
  refine (List.countP_congr same).trans ?_
  rw [← List.count, (nodup_of_sorted sorted).count, if_pos mem]

structure Offering (s : Scan) (ts : List RecordTable) (t : RecordTable) (left : List Notice)
    (w : Visit) : Prop where
  asked : w.asked = ts
  table : w.table = t
  sent : w.sent ++ left.filter s.tells = s.announced (s.read ts)

theorem reading_offers {ts : List RecordTable} {t : RecordTable} {ns : List Notice}
    (pages : (ts.length - 1) * s.pageSize.toNat ≤ 0x8000000000000000) (h : s.Offering ts t ns w) :
    (offerAll s.dispatcher ns).Ensures (visit allowed) s.Following (s.reading allowed) w fun _ v =>
      s.Offering ts t [] v := by
  have following : ∀ {left v}, s.Offering ts t left v → s.Following v := by
    rintro left v ⟨rfl, -, sent⟩
    exact ⟨⟨_, sent⟩, pages⟩
  refine visit_shows.ensures_offerAll (J := s.Offering ts t) ?_ ?_ (following h) h
  · rintro n rest v - ⟨hasked, htable, sent⟩ skipped
    have untold : s.tells n = false := skipped
    rw [List.filter_cons_of_neg (by simp [untold])] at sent
    exact ⟨hasked, htable, sent⟩
  · rintro n rest v - ⟨hasked, htable, sent⟩ wanted u hu
    obtain ⟨same, sameTable, more⟩ := visit_launch hu
    have told : s.tells n = true := wanted
    rw [List.filter_cons_of_pos told] at sent
    have offering : s.Offering ts t rest u := by
      refine ⟨same.trans hasked, sameTable.trans htable, ?_⟩
      rw [more, List.append_assoc, List.singleton_append, sent]
    exact ⟨following offering, offering⟩

theorem length_pageAt (t : RecordTable) (offset : Nat) :
    (s.pageAt t offset).length = min s.pageSize.toNat ((s.found t).length - offset) := by
  rw [pageAt, List.length_take, List.length_drop]

theorem toNat_length_pageAt (t : RecordTable) (offset : Nat) :
    (UInt64.ofNat (s.pageAt t offset).length).toNat = (s.pageAt t offset).length := by
  have small : s.pageSize.toNat < 4294967296 := s.pageSize.toNat_lt
  have length := length_pageAt (s := s) t offset
  rw [UInt64.toNat_ofNat', Nat.mod_eq_of_lt (by omega)]

section Turn
variable {offset : UInt64} (h : s.Between offset w) (asked : v.asked = w.asked ++ [v.table])
include h asked

theorem Between.read_next :
    s.read v.asked = s.read w.asked ++ s.pageAt v.table offset.toNat := by
  rw [asked, read_concat, h.offset]

theorem Between.length_next :
    (s.read v.asked).length = offset.toNat + (s.pageAt v.table offset.toNat).length := by
  rw [h.read_next asked, List.length_append, h.offset]

theorem Between.pages_next : (v.asked.length - 1) * s.pageSize.toNat ≤ 0x8000000000000000 := by
  rw [asked, List.length_append, List.length_singleton, Nat.add_sub_cancel, ← h.full]
  exact h.bound

theorem Between.ended (sent : v.sent = s.announced (s.read v.asked))
    (short : (s.pageAt v.table offset.toNat).length < s.pageSize.toNat) : s.Ended v := by
  refine ⟨sent, ?_⟩
  have length := length_pageAt (s := s) v.table offset.toNat
  have total := h.length_next asked
  omega

theorem Between.next (size : 1 ≤ s.pageSize) (kept : v.table.WellKept)
    (sent : v.sent = s.announced (s.read v.asked))
    (full : ¬ (s.pageAt v.table offset.toNat).length < s.pageSize.toNat) :
    s.Between (offset + UInt64.ofNat (s.pageAt v.table offset.toNat).length) v := by
  have length := length_pageAt (s := s) v.table offset.toNat
  have total := h.length_next asked
  -- The rows that are found fit the table, so the offset does not wrap around.
  have positive : 1 ≤ s.pageSize.toNat := UInt32.le_iff_toNat_le.1 size
  have found := s.found_length_le kept
  refine ⟨?_, ?_, by omega, sent⟩
  · rw [UInt64.toNat_add, toNat_length_pageAt, Nat.mod_eq_of_lt (by omega), total]
  · rw [total, asked, List.length_append, List.length_singleton, Nat.add_mul, ← h.full, h.offset]
    rw [h.offset] at length full
    omega

end Turn

theorem reading_page (size : 1 ≤ s.pageSize) {offset : UInt64} {summary : ScanSummary}
    (h : s.Between offset w) :
    (s.page offset summary).Ensures (visit allowed) s.Following (s.reading allowed) (answers allowed)
      w fun _ v => s.Ended v := by
  refine visit_shows.ensures_page fun x v hv => ?_
  cases x with
  | error err =>
    obtain ⟨same, -, unsent, failed⟩ := visit_unanswered hv
    refine ⟨⟨⟨[], by rw [List.append_nil, same, unsent, h.sent]⟩, ?_⟩, failed⟩
    rw [same]
    exact Nat.le_trans (Nat.mul_le_mul_right _ (Nat.sub_le _ 1)) (h.full ▸ h.bound)
  | ok rows =>
    obtain ⟨changes, asked, answer, unsent⟩ := visit_answered hv
    have hrows : rows = (s.pageAt v.table offset.toNat).map DepositEntry.deposit := answer
    have hlength : rows.length = (s.pageAt v.table offset.toNat).length := by
      rw [hrows, List.length_map]
    have offering : s.Offering v.asked v.table
        (rows.map fun d => ({ deposit := d, status := s.status } : Notice)) v := by
      refine ⟨rfl, rfl, ?_⟩
      rw [h.read_next asked, announced_append, unsent, h.sent, hrows, List.map_map]
      rfl
    have pages := h.pages_next asked
    refine ⟨⟨⟨_, offering.sent⟩, pages⟩, (reading_offers pages offering).mono fun n u hu => ?_⟩
    obtain ⟨uasked, utable, sent⟩ := hu
    rw [List.filter_nil, List.append_nil, ← uasked] at sent
    rw [← utable] at asked changes hlength
    rw [← uasked] at asked
    have short : UInt64.ofNat rows.length < s.pageSize.toUInt64 ↔
        (s.pageAt u.table offset.toNat).length < s.pageSize.toNat := by
      rw [hlength, UInt64.lt_iff_toNat_lt, toNat_length_pageAt, UInt32.toNat_toUInt64]
    dsimp only
    split
    · exact h.ended asked sent (short.1 ‹_›)
    · refine ⟨⟨rfl, hlength ▸ h.next asked size changes.kept sent (mt short.2 ‹_›)⟩, fun r z _ hz => ?_⟩
      cases r with
      | error err => exact hz
      | ok sm => exact hz

theorem reading_kept (size : 1 ≤ s.pageSize) :
    (s.reading allowed).Kept (visit allowed) s.Following := by
  rintro (⟨s', offset, summary⟩ | _ | _ | _) w hI h
  · obtain ⟨rfl, h⟩ := h
    exact reading_page size h
  all_goals exact h.elim

variable {first t : RecordTable} {ts : List RecordTable} {m n : Memory} {es : List Event}
variable {p : Program (Except Error ScanSummary)}

theorem found_eq_nil (h : s.range.high < s.range.low) (t : RecordTable) : s.found t = [] := by
  refine List.filter_eq_nil_iff.2 fun e _ he => ?_
  simp only [RecordTable.matures, Bool.and_eq_true, decide_eq_true_eq] at he
  exact UInt64.not_le.2 h (UInt64.le_trans he.1.1.2 he.1.2)

theorem following_of_leads (size : 1 ≤ s.pageSize)
    (run : s.run.run.Leads shared.changing (m, [], first) es p (n, ts, t)) :
    s.Following ((n.ints, ts, t), handed es) ∧ ∀ r, p.result? = some r →
      Ends (answers (· ∈ es)) (fun _ v => s.Ended v) r (((n.ints, ts, t), handed es) : Visit) := by
  have seen := (run.only fun e he => he).map (T := numbers.changing.only (· ∈ es))
    (fun w => (w.1.ints, w.2)) fun _ _ _ h => ⟨h.1, numbers_of_shared h.2.1, h.2.2⟩
  have noted := seen.noted (fun sent e => sent ++ e.notice?.toList) []
  rw [foldl_notice?, List.nil_append] at noted
  have following : s.Following ((m.ints, [], first), []) :=
    ⟨List.prefix_refl _, by simp [Visit.asked]⟩
  have ends : s.run.Ensures (visit (· ∈ es)) s.Following (s.reading (· ∈ es)) (answers (· ∈ es))
      ((m.ints, [], first), []) fun _ v => s.Ended v := by
    unfold Scan.run
    split
    · rename_i empty
      exact ensures_pure ⟨rfl, by rw [found_eq_nil empty]; exact Nat.zero_le _⟩
    · refine ⟨⟨rfl, rfl, ?_, Nat.zero_le _, rfl⟩, fun r v _ hv => ?_⟩
      · exact (Nat.zero_mul _).symm
      · cases r with
        | error err => exact hv
        | ok summary => exact hv
  refine ⟨Program.Ensures.invariant ends (reading_kept size) following noted, fun r h => ?_⟩
  obtain rfl := Program.eq_done_of_result? h
  exact Program.Ensures.result ends (reading_kept size) following noted

/-- However the table changes from page to page, a scan hands over no row twice, and it comes to its
end when its pages are answered. If no row that it has read is flagged before its last page, it hands
over all that is found then: whatever is found from the first page to the last, exactly once. -/
theorem handed_of_changing (size : 1 ≤ s.pageSize)
    (run : s.run.run.Leads shared.changing (m, [], first) es p (n, ts, t)) :
    (handed es <+: s.announced (s.read ts) ∧ (s.read ts).Pairwise fun d e => d.id < e.id) ∧
    ((ts.length - 1) * s.pageSize.toNat ≤ 0x8000000000000000 ∧
      ∀ err, p.result? = some (.error err) → ∃ e ∈ es, e.error? = some err) ∧
    ∀ summary, p.result? = some (.ok summary) → s.Steady ts →
      handed es = s.announced (s.found t) ∧
      ∀ e, (∀ u ∈ first :: ts, e ∈ s.found u) → s.tells (s.notice e) = true →
        (∀ d ∈ s.found t, d.deposit = e.deposit → d = e) → (handed es).count (s.notice e) = 1 := by
  have evolves : first.Evolves ts t := evolves_of_leads .start run
  have sorted := (ordered_of_evolves (s := s) evolves).sorted
  obtain ⟨following, ended⟩ := following_of_leads size run
  refine ⟨⟨following.sent, sorted⟩, ⟨following.pages, fun err h => ended _ h⟩,
    fun summary h steady => ?_⟩
  obtain ⟨sent, short⟩ : s.Ended ((n.ints, ts, t), handed es) := ended _ h
  have all : s.read ts = s.found t := read_eq_found evolves steady short
  have sent : handed es = s.announced (s.found t) := all ▸ sent
  refine ⟨sent, fun e throughout told only => ?_⟩
  have mem : e ∈ s.found t := throughout t evolves.mem
  rw [sent]
  exact count_announced (all ▸ sorted) mem told only

open Setup

def oneByOne : Scan :=
  onePerPage.scan .maturity mainNetwork ⟨0, 36⟩ .pendingAutoClaim

def laterDeposits : RecordTable :=
  ⟨[⟨1, mainDeposit 7 20, false⟩, ⟨2, mainDeposit 8 21, true⟩, ⟨3, mainDeposit 9 22, false⟩], []⟩

theorem changes_twoDeposits : twoDeposits.Changes twoDeposits :=
  .refl ⟨by decide, by decide, by decide, by decide⟩

/-- The second deposit is flagged before its page, and a third one is added. -/
theorem handed_of_changing_laterDeposits : ∃ es,
    oneByOne.run.run.Leads shared.changing (.empty, [], twoDeposits) es (.done (.ok ⟨3, 2, 2⟩))
      (.empty, [twoDeposits, laterDeposits, laterDeposits], laterDeposits) ∧
    handed es = oneByOne.announced (oneByOne.found laterDeposits) ∧
    (handed es).count (oneByOne.notice ⟨1, mainDeposit 7 20, false⟩) = 1 := by
  have added : twoDeposits.Changes laterDeposits :=
    ⟨⟨fun e => e.deposit.count == 8, _, rfl⟩, by decide, by decide, by decide, by decide⟩
  have same : laterDeposits.Changes laterDeposits := .refl added.kept
  have steady : oneByOne.Steady [twoDeposits, laterDeposits, laterDeposits] := by
    intro before t after h
    rcases before with _ | ⟨_, _ | ⟨_, _ | ⟨_, before⟩⟩⟩
    · exact nofun
    · cases h
      decide
    · cases h
      decide
    · simp at h
  obtain ⟨es, run⟩ : ∃ es,
      oneByOne.run.run.Leads shared.changing (.empty, [], twoDeposits) es (.done (.ok ⟨3, 2, 2⟩))
        (.empty, [twoDeposits, laterDeposits, laterDeposits], laterDeposits) :=
    ⟨_, .call (.ask (changing_answer rfl changes_twoDeposits) (.ask (x := ()) ⟨rfl, rfl⟩
      (.ask (x := ()) ⟨rfl, rfl⟩ (.call (.ask (changing_answer rfl added) (.ask (x := ()) ⟨rfl, rfl⟩
        (.ask (x := ()) ⟨rfl, rfl⟩ (.call (.ask (changing_answer rfl same)
          (.ask (x := ()) ⟨rfl, rfl⟩ (.refl _ _)))))))))))⟩
  obtain ⟨sent, once⟩ := (handed_of_changing (by decide) run).2.2 _ rfl steady
  exact ⟨es, run, sent, once _ (by decide) (by decide) (by decide)⟩

/-- A deposit can be missed: the one before it is flagged after its page, and the next page begins
behind both. -/
theorem not_handed_of_changing : ¬ ∀ (s : Scan) (m n : Memory) (first t : RecordTable)
    (ts : List RecordTable) (es : List Event) (summary : ScanSummary), 1 ≤ s.pageSize →
    s.run.run.Leads shared.changing (m, [], first) es (.done (.ok summary)) (n, ts, t) →
    ∀ e, (∀ u ∈ first :: ts, e ∈ s.found u) → s.tells (s.notice e) = true →
      (∀ d ∈ s.found t, d.deposit = e.deposit → d = e) → (handed es).count (s.notice e) = 1 := by
  intro claim
  have flagged : twoDeposits.Changes (twoDeposits.markReady 7) :=
    ⟨⟨fun e => e.deposit.count == 7, [], rfl⟩, by decide, by decide, by decide, by decide⟩
  have once := claim oneByOne .empty .empty twoDeposits _ _ _ ⟨2, 1, 1⟩ (by decide)
    (.call (.ask (changing_answer rfl changes_twoDeposits) (.ask (x := ()) ⟨rfl, rfl⟩
      (.ask (x := ()) ⟨rfl, rfl⟩ (.call (.ask (changing_answer rfl flagged)
        (.ask (x := ()) ⟨rfl, rfl⟩ (.refl _ _)))))))) ⟨2, mainDeposit 8 21, false⟩
    (by decide) (by decide) (by decide)
  have none : (0 : Nat) = 1 := once
  cases none

end Scan
end BridgeNotifier
