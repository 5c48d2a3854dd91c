import BridgeNotifier.Proofs.FeedHistory
import Mathlib.Control.Monad.Basic
import Mathlib.Data.List.Nodup
set_option autoImplicit false

namespace BridgeNotifier
open RecordTable

/-- Rows were added, at any place. -/
structure RecordTable.Gains (t u : RecordTable) : Prop where
  deposits : t.deposits.Sublist u.deposits
  claims : t.claims.Sublist u.claims
  wellKept : t.WellKept → u.WellKept

namespace RecordTable

theorem Gains.refl (t : RecordTable) : t.Gains t :=
  ⟨.refl _, .refl _, id⟩

theorem Gains.trans {t u v : RecordTable} (h : t.Gains u) (h' : u.Gains v) : t.Gains v :=
  ⟨h.deposits.trans h'.deposits, h.claims.trans h'.claims, h'.wellKept ∘ h.wellKept⟩

theorem Grows.gains {t u : RecordTable} (h : t.Grows u) : t.Gains u := by
  obtain ⟨ds, hd⟩ := h.deposits
  obtain ⟨cs, hc⟩ := h.claims
  exact ⟨hd ▸ List.sublist_append_left _ _, hc ▸ List.sublist_append_left _ _, h.wellKept⟩

theorem eq_of_id_eq {α : Type} {key : α → UInt64} {l : List α}
    (sorted : l.Pairwise fun a b => key a < key b) {a b : α} (ha : a ∈ l) (hb : b ∈ l)
    (h : key a = key b) : a = b := by
  have distinct : (l.map key).Nodup := List.pairwise_map.2 (sorted.imp UInt64.ne_of_lt)
  exact List.inj_on_of_nodup_map distinct ha hb h

end RecordTable

namespace Feed

variable {f : Feed} {t u v : RecordTable} {id : UInt64} {notice : Option Notice}

theorem ids_gains (h : t.Gains u) : (f.ids t).Sublist (f.ids u) := by
  cases f with
  | deposits => exact h.deposits.map _
  | claims => exact h.claims.map _

/-- The notice due for a row of a table: for a claim, the one its deposit calls for once there are
these rows or more. -/
def Due : Feed → RecordTable → UInt64 → Option Notice → Prop
  | .deposits, t, id, notice => ∃ e ∈ t.deposits, e.id = id ∧ notice = created? e.deposit
  | .claims, t, id, notice => ∃ e ∈ t.claims, e.id = id ∧ ∃ u : RecordTable, t.Gains u ∧
      notice = claimed? e.claim (u.answer (.deposit e.claim.originNetwork e.claim.depositCount))

theorem due_of_calls (hid : id ∈ f.ids t) (gains : t.Gains u) (kept : v.WellKept)
    (uv : u.Grows v) (calls : f.Calls u v (id, notice)) : f.Due t id notice := by
  cases f with
  | deposits =>
    obtain ⟨e, he, hid⟩ := List.mem_map.1 hid
    obtain ⟨e', he', hrow⟩ := calls
    obtain ⟨rfl, rfl⟩ := Prod.mk.inj hrow
    have mem : e ∈ v.deposits := (gains.trans uv.gains).deposits.subset he
    obtain rfl := eq_of_id_eq kept.depositIds mem he' hid
    exact ⟨e, he, rfl, rfl⟩
  | claims =>
    obtain ⟨e, he, hid⟩ := List.mem_map.1 hid
    obtain ⟨x, hx, hxv, e', he', hrow⟩ := calls
    obtain ⟨rfl, rfl⟩ := Prod.mk.inj hrow
    have mem : e ∈ v.claims := (gains.trans uv.gains).claims.subset he
    obtain rfl := eq_of_id_eq kept.claimIds mem (hxv.gains.claims.subset he') hid
    exact ⟨e, he, rfl, x, gains.trans hx.gains, rfl⟩

end Feed

namespace Reading

def about (o : Reading) (id : UInt64) : List (UInt64 × Option Notice) :=
  o.seen.filter fun row => row.1 = id

variable {o : Reading} {id : UInt64}

theorem about_eq_nil (h : id ∉ o.seen.map Prod.fst) : o.about id = [] := by
  refine List.filter_eq_nil_iff.2 fun row hrow hid => h ?_
  rw [decide_eq_true_eq] at hid
  exact hid ▸ List.mem_map_of_mem hrow

theorem about_eq_singleton (sorted : (o.seen.map Prod.fst).Pairwise (· < ·))
    (h : id ∈ o.seen.map Prod.fst) : ∃ notice, (id, notice) ∈ o.seen ∧ o.about id = [(id, notice)] := by
  obtain ⟨⟨i, notice⟩, hrow, rfl⟩ := List.mem_map.1 h
  refine ⟨notice, hrow, ?_⟩
  rw [about]
  generalize o.seen = rows at sorted hrow
  induction rows with
  | nil => cases hrow
  | cons row rows ih =>
    rw [List.map_cons, List.pairwise_cons] at sorted
    obtain ⟨above, sorted⟩ := sorted
    obtain rfl | hrow := List.mem_cons.1 hrow
    · rw [List.filter_cons_of_pos (by simp)]
      refine congrArg _ (List.filter_eq_nil_iff.2 fun row hrow hid => ?_)
      rw [decide_eq_true_eq] at hid
      exact absurd (hid ▸ above row.1 (List.mem_map_of_mem hrow)) (UInt64.lt_irrefl _)
    · have lt := above i (List.mem_map_of_mem hrow)
      have ne : row.1 ≠ i := fun h => absurd (h ▸ lt) (UInt64.lt_irrefl _)
      rw [List.filter_cons_of_neg (by simpa using ne)]
      exact ih sorted hrow

end Reading

namespace Setup
open Surroundings

variable {s : Setup} {f : Feed} {start : UInt64} {m n : Memory × RecordTable} {es : List Event}

/-- A tick that found the watermark at `start` and leaves it at `last`. -/
structure Takes (s : Setup) (f : Feed) (start last : UInt64) (m n : Memory × RecordTable)
    (o : Reading) : Prop where
  kept : n.2.WellKept
  grown : m.2.Grows n.2
  mark : n.1.ints (s.key f.watermark) = some last
  all : ∀ id ∈ f.ids m.2, id ≤ last
  seen : o.seen.map Prod.fst = (f.ids n.2).filter (idsBetween start last)
  rows : ∀ row ∈ o.seen, f.Calls m.2 n.2 row
  sent : o.sent = s.told (o.seen.filterMap Prod.snd)

theorem takes_of_leads (kept : m.2.WellKept) (hm : m.1.ints (s.key f.watermark) = some start)
    {o : Outcome} (run : (s.tick (.feed f)).run.Leads shared.tabled m es (.done (.ok o)) n)
    (unfailing : ∀ e ∈ es, e.error? = none) (got : o ≠ .locked) :
    ∃ last, Takes s f start last m n (es.foldl Reading.next .start) := by
  obtain ⟨o', ho, last, level, all⟩ := level_of_leads kept hm run unfailing
  obtain rfl := Except.ok.inj ho
  have seen : (es.foldl Reading.next .start).seen = (es.foldl Reading.next .start).done :=
    level.seen_eq
  refine ⟨last, level.amid.kept, level.amid.grown, level.amid.mark, all got, ?_, level.amid.rows,
    ?_⟩
  · rw [seen]
    exact level.amid.done
  · rw [seen]
    exact level.sent_eq

namespace Takes

variable {last id : UInt64} {o : Reading} {t : RecordTable}

theorem about_of_le (h : Takes s f start last m n o) (hid : id ≤ start) : o.about id = [] := by
  refine Reading.about_eq_nil fun mem => ?_
  rw [h.seen, List.mem_filter, idsBetween_iff] at mem
  exact UInt64.not_le.2 mem.2.1 hid

theorem about_of_lt (h : Takes s f start last m n o) (gains : t.Gains m.2) (mem : id ∈ f.ids t)
    (hid : start < id) : ∃ notice, f.Due t id notice ∧ o.about id = [(id, notice)] := by
  have visible : id ∈ f.ids m.2 := (Feed.ids_gains gains).subset mem
  have within : id ∈ o.seen.map Prod.fst := by
    rw [h.seen, List.mem_filter, idsBetween_iff]
    exact ⟨(Feed.ids_gains h.grown.gains).subset visible, hid, h.all id visible⟩
  have sorted : (o.seen.map Prod.fst).Pairwise (· < ·) := by
    rw [h.seen]
    exact (Feed.ids_sorted h.kept).filter _
  obtain ⟨notice, hrow, about⟩ := Reading.about_eq_singleton sorted within
  exact ⟨notice, Feed.due_of_calls mem gains h.kept h.grown (h.rows _ hrow), about⟩

end Takes

/-- Ticks in which no call fails, one at a time, and commits between them. -/
inductive Interleaves (s : Setup) (first : Memory × RecordTable) :
    List Tick → Memory × RecordTable → Prop where
  | start : Interleaves s first [] first
  | commit {ts : List Tick} {m : Memory} {t u : RecordTable} (before : Interleaves s first ts (m, t))
      (gains : t.Gains u) : Interleaves s first ts (m, u)
  | tick {ts : List Tick} {w v : Memory × RecordTable} {es : List Event} {o : Outcome}
      (before : Interleaves s first ts w) (t : Task)
      (run : (s.tick t).run.Leads shared.tabled w es (.done (.ok o)) v)
      (unfailing : ∀ e ∈ es, e.error? = none) (got : o ≠ .locked) :
      Interleaves s first (ts ++ [⟨t, es, some (.ok o)⟩]) v

def AnnouncedNext (f : Feed) (t : RecordTable) (id : UInt64) (os : List Reading) : Prop :=
  ∃ o rest notice, os = o :: rest ∧ f.Due t id notice ∧ o.about id = [(id, notice)] ∧
    ∀ o ∈ rest, o.about id = []

/-- A row that is visible in `t` while the watermark stands at `start` awaits the next tick, or was
gone through or passed over by it. -/
structure Awaits (s : Setup) (f : Feed) (start : UInt64) (t : RecordTable) (id : UInt64)
    (ts : List Tick) (m : Memory × RecordTable) : Prop where
  kept : m.2.WellKept
  gains : t.Gains m.2
  mark : ∃ last, m.1.ints (s.key f.watermark) = some last ∧
    (feedReadings f ts = [] ∧ last = start ∨ feedReadings f ts ≠ [] ∧ id ≤ last)
  above : start < id → feedReadings f ts ≠ [] → AnnouncedNext f t id (feedReadings f ts)
  below : id ≤ start → ∀ o ∈ feedReadings f ts, o.about id = []
  sent : ∀ o ∈ feedReadings f ts, o.sent = s.told (o.seen.filterMap Prod.snd)

variable {t u : RecordTable} {id : UInt64} {ts : List Tick}

namespace Awaits

theorem initially (kept : m.2.WellKept) (hm : m.1.ints (s.key f.watermark) = some start) :
    Awaits s f start m.2 id [] m :=
  ⟨kept, .refl _, ⟨start, hm, .inl ⟨rfl, rfl⟩⟩, fun _ h => absurd rfl h, fun _ _ h => (nomatch h),
    fun _ h => nomatch h⟩

theorem commit {k : Memory} (h : Awaits s f start t id ts (k, u)) {v : RecordTable}
    (gains : u.Gains v) : Awaits s f start t id ts (k, v) :=
  { h with kept := gains.wellKept h.kept, gains := h.gains.trans gains }

theorem other {task : Task} (h : Awaits s f start t id ts m) (ht : task ≠ .feed f)
    {p : Program (Except Error Outcome)} {r : Option (Except Error Outcome)}
    (run : (s.tick task).run.Leads shared.tabled m es p n) :
    Awaits s f start t id (ts ++ [⟨task, es, r⟩]) n := by
  have grows := grows_of_leads run
  have same := feedReadings_concat_of_ne (t := ⟨task, es, r⟩) ht ts
  obtain ⟨last, hlast, stands⟩ := h.mark
  refine ⟨grows.wellKept h.kept, h.gains.trans grows.gains, ⟨last, ?_, ?_⟩, ?_, ?_, ?_⟩
  · rw [feed_mark_eq run ht, hlast]
  · rw [same]
    exact stands
  · rw [same]
    exact h.above
  · rw [same]
    exact h.below
  · rw [same]
    exact h.sent

theorem tick (h : Awaits s f start t id ts m) (mem : id ∈ f.ids t) {o : Outcome}
    (run : (s.tick (.feed f)).run.Leads shared.tabled m es (.done (.ok o)) n)
    (unfailing : ∀ e ∈ es, e.error? = none) (got : o ≠ .locked) :
    Awaits s f start t id (ts ++ [⟨.feed f, es, some (.ok o)⟩]) n := by
  obtain ⟨mark, hmark, stands⟩ := h.mark
  obtain ⟨last, takes⟩ := takes_of_leads h.kept hmark run unfailing got
  have all : feedReadings f (ts ++ [⟨.feed f, es, some (.ok o)⟩]) =
      feedReadings f ts ++ [es.foldl Reading.next .start] := feedReadings_concat rfl ts
  have passed : id ≤ last := takes.all id ((Feed.ids_gains h.gains).subset mem)
  refine ⟨takes.kept, h.gains.trans takes.grown.gains,
    ⟨last, takes.mark, .inr ⟨by simp [all], passed⟩⟩, fun hlt _ => ?_, fun hle o ho => ?_,
    fun o ho => ?_⟩
  · rw [all]
    obtain ⟨none, rfl⟩ | ⟨some, hle⟩ := stands
    · obtain ⟨notice, due, about⟩ := takes.about_of_lt h.gains mem hlt
      rw [none]
      exact ⟨_, [], notice, rfl, due, about, fun o ho => nomatch ho⟩
    · obtain ⟨first, rest, notice, hfirst, due, about, later⟩ := h.above hlt some
      refine ⟨first, rest ++ [es.foldl Reading.next .start], notice, ?_, due, about, fun o ho => ?_⟩
      · rw [hfirst, List.cons_append]
      · obtain ho | ho := List.mem_append.1 ho
        · exact later o ho
        · rw [List.mem_singleton.1 ho]
          exact takes.about_of_le hle
  · rw [all] at ho
    obtain ho | ho := List.mem_append.1 ho
    · exact h.below hle o ho
    · rw [List.mem_singleton.1 ho]
      obtain ⟨-, rfl⟩ | ⟨-, hle⟩ := stands
      · exact takes.about_of_le hle
      · exact takes.about_of_le hle
  · rw [all] at ho
    obtain ho | ho := List.mem_append.1 ho
    · exact h.sent o ho
    · rw [List.mem_singleton.1 ho]
      exact takes.sent

end Awaits

theorem interleaves_awaits (kept : m.2.WellKept) (hm : m.1.ints (s.key f.watermark) = some start)
    (mem : id ∈ f.ids m.2) (run : s.Interleaves m ts n) : Awaits s f start m.2 id ts n := by
  induction run with
  | start => exact .initially kept hm
  | commit _ gains ih => exact ih.commit gains
  | tick _ t run unfailing got ih =>
    by_cases ht : t = .feed f
    · subst ht
      exact ih.tick mem run unfailing got
    · exact ih.other ht run

/-- From when a row is visible, it is announced by the next tick of the feed and by no other exactly
if its id is above the watermark then; otherwise it is never announced. -/
theorem announced_iff_above_watermark (kept : m.2.WellKept)
    (hm : m.1.ints (s.key f.watermark) = some start) (mem : id ∈ f.ids m.2)
    (run : s.Interleaves m ts n) (ticked : feedReadings f ts ≠ []) :
    (AnnouncedNext f m.2 id (feedReadings f ts) ↔ start < id) ∧
    (id ≤ start → ∀ o ∈ feedReadings f ts, o.about id = []) ∧
    ∀ o ∈ feedReadings f ts, o.sent = s.told (o.seen.filterMap Prod.snd) := by
  have awaits := interleaves_awaits kept hm mem run
  refine ⟨⟨fun announced => ?_, fun hlt => awaits.above hlt ticked⟩, awaits.below, awaits.sent⟩
  refine UInt64.not_le.1 fun hle => ?_
  obtain ⟨o, rest, notice, hos, -, about, -⟩ := announced
  have none := awaits.below hle o (by simp [hos])
  exact absurd (none.symm.trans about) (by simp)

open Simulation

def secondDeposit : RecordTable :=
  ⟨[⟨2, mainDeposit 8 21, false⟩], []⟩

theorem wellKept_secondDeposit : secondDeposit.WellKept :=
  ⟨by decide, by decide, by decide, by decide⟩

def emptyWorld : World :=
  (trace 60 (onePerPage.tick (.feed .deposits)).run (.initial 64 .empty .empty)).2.2

def feedTick (w : World) (t : RecordTable) : List Event × Program (Except Error Outcome) × World :=
  trace 60 (onePerPage.tick (.feed .deposits)).run { w with records := .initial t }

theorem interleaves_feedTick {w : World} {t : RecordTable} {o : Outcome} {first : Memory × RecordTable}
    (before : onePerPage.Interleaves first ts (w.store.memory, t))
    (ended : (feedTick w t).2.1.result? = some (.ok o))
    (unfailing : ∀ e ∈ (feedTick w t).1, e.error? = none) (got : o ≠ .locked)
    (still : (feedTick w t).2.2.records.table = t) :
    onePerPage.Interleaves first (ts ++ [⟨.feed .deposits, (feedTick w t).1, some (.ok o)⟩])
      ((feedTick w t).2.2.store.memory, t) := by
  have run := (leads_trace 60 (onePerPage.tick (.feed .deposits)).run
    { w with records := .initial t }).map (fun w => (w.store.memory, w.records.table))
    fun _ _ _ => tabled_of_scripted
  have done : (feedTick w t).2.1 = .done (.ok o) := Program.eq_done_of_result? ended
  rw [← feedTick, still, done] at run
  exact .tick before (.feed .deposits) run unfailing got

/-- The second deposit was announced, and the first one is still to become visible. -/
def lateCommit : World :=
  (feedTick emptyWorld secondDeposit).2.2

def secondTick : Tick :=
  ⟨.feed .deposits, (feedTick emptyWorld secondDeposit).1, some (.ok (.advanced 0 2 1))⟩

def lateTick : Tick :=
  ⟨.feed .deposits, (feedTick lateCommit twoDeposits).1, some (.ok .noChange)⟩

theorem mark_lateCommit : lateCommit.store.memory.ints (onePerPage.key .depositFeed) = some 2 := by
  decide +kernel

theorem visible_lateCommit : 1 ∈ Feed.deposits.ids twoDeposits := by decide

section LateCommit
variable {first : Memory × RecordTable}

theorem interleaves_secondTick
    (before : onePerPage.Interleaves first ts (emptyWorld.store.memory, secondDeposit)) :
    onePerPage.Interleaves first (ts ++ [secondTick]) (lateCommit.store.memory, secondDeposit) :=
  interleaves_feedTick before (by decide +kernel) (by decide +kernel) (by decide) (by decide +kernel)

theorem interleaves_lateTick
    (before : onePerPage.Interleaves first ts (lateCommit.store.memory, twoDeposits)) :
    onePerPage.Interleaves first (ts ++ [lateTick])
      ((feedTick lateCommit twoDeposits).2.2.store.memory, twoDeposits) :=
  interleaves_feedTick before (by decide +kernel) (by decide +kernel) (by decide) (by decide +kernel)

end LateCommit

theorem announced_iff_above_watermark_lateCommit :
    AnnouncedNext .deposits secondDeposit 2 (feedReadings .deposits [secondTick]) ∧
      ¬ AnnouncedNext .deposits twoDeposits 1 (feedReadings .deposits [lateTick]) := by
  have seeded : emptyWorld.store.memory.ints (onePerPage.key .depositFeed) = some 0 := by
    decide +kernel
  have visible : 2 ∈ Feed.deposits.ids secondDeposit := by decide
  have second := announced_iff_above_watermark (f := .deposits) wellKept_secondDeposit seeded visible
    (interleaves_secondTick .start) (by simp [feedReadings, secondTick])
  have late := announced_iff_above_watermark (f := .deposits) wellKept_twoDeposits mark_lateCommit
    visible_lateCommit (interleaves_lateTick .start) (by simp [feedReadings, lateTick])
  exact ⟨second.1.2 (by decide), fun announced => absurd (late.1.1 announced) (by decide)⟩

theorem not_announced_of_lateCommit :
    ¬ ∀ (s : Setup) (f : Feed) (first : Memory × RecordTable) (before after : List Tick) (m : Memory)
      (t u : RecordTable) (id : UInt64) (n : Memory × RecordTable), first.2.WellKept →
      first.1.ints (s.key f.watermark) = some (largest (f.ids first.2)) →
      s.Interleaves first before (m, t) → t.Gains u → id ∈ f.ids u → id ∉ f.ids t →
      s.Interleaves (m, u) after n → feedReadings f after ≠ [] →
      AnnouncedNext f u id (feedReadings f after) := by
  intro claim
  have empty : RecordTable.empty.WellKept := ⟨.nil, .nil, by decide, by decide⟩
  have committed : onePerPage.Interleaves (emptyWorld.store.memory, .empty) []
      (emptyWorld.store.memory, secondDeposit) :=
    .commit .start ⟨by decide, by decide, fun _ => wellKept_secondDeposit⟩
  have announced := claim onePerPage .deposits _ _ _ _ _ twoDeposits 1 _ empty (by decide +kernel)
    (interleaves_secondTick committed) ⟨by decide, by decide, fun _ => wellKept_twoDeposits⟩
    (by decide) (by decide) (interleaves_lateTick .start) (by simp [feedReadings, lateTick])
  obtain ⟨o, rest, notice, hos, -, about, -⟩ := announced
  have passed := interleaves_awaits (f := .deposits) wellKept_twoDeposits mark_lateCommit
    visible_lateCommit (interleaves_lateTick .start)
  have none := passed.below (by decide) o (hos ▸ List.mem_cons_self)
  exact absurd (none.symm.trans about) (by simp)

end Setup
end BridgeNotifier
