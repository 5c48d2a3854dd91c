import BridgeNotifier.Proofs.FeedRounds
import BridgeNotifier.Proofs.MaturityTicks
import BridgeNotifier.Proofs.Replay
set_option autoImplicit false

namespace BridgeNotifier
open RecordTable

namespace Contract

def idle (σ : Type) : Contract σ where
  needs _ _ := False
  gives _ _ _ _ := False

theorem idle_kept {σ : Type} {S : Surroundings σ} {I : σ → Prop} : (idle σ).Kept S I :=
  fun _ _ _ h => h.elim

end Contract

namespace Setup
open Routine Surroundings

variable {s : Setup} {f : Feed} {start seed last : UInt64} {m n x : Memory × RecordTable}
variable {allowed : Event → Prop} {w v : Reader × Option RecordTable}
variable {first : String → Option UInt64} {E : Error → Reader × Option RecordTable → Prop}

/-- What holds at every point of a tick that found no watermark: it goes through no row. -/
structure Unset (s : Setup) (f : Feed) (first : String → Option UInt64) (w : Reader) : Prop where
  kept : w.table.WellKept
  others : ∀ k, k ≠ s.key f.watermark → w.ints k = first k
  mark : ∀ seed, w.ints (s.key f.watermark) = some seed → seed ≤ largest (f.ids w.table)
  seen : w.reading.seen = []
  sent : w.reading.sent = []
  full : w.reading.full = none
  missed : w.reading.missed = true → w.ints (s.key f.watermark) = none

theorem unset_start (kept : m.2.WellKept) (hm : m.1.ints (s.key f.watermark) = none) :
    Unset s f m.1.ints ((m.1.ints, m.2), .start) := by
  refine ⟨kept, fun _ _ => rfl, fun seed hseed => ?_, rfl, rfl, rfl, fun h => nomatch h⟩
  exact absurd (hm.symm.trans hseed) (by simp)

theorem level_start (kept : m.2.WellKept) (hm : m.1.ints (s.key f.watermark) = some start) :
    Level s f start start (m.1.ints, m.2) ((m.1.ints, m.2), .start) := by
  refine ⟨⟨kept, .refl _, fun _ _ => rfl, hm, UInt64.le_refl _, UInt64.le_refl _, .inl rfl, ?_, ?_,
    ?_, ?_, ?_, rfl⟩, rfl⟩
  · exact (filter_idsBetween_self _ _).symm
  · exact (filter_idsBetween_self _ _).symm
  · exact fun row hrow => nomatch hrow
  · exact List.nil_append _
  · exact (told_nil (s := s)).symm ▸ List.prefix_rfl

theorem Unset.asked {c : RecordCall} {y : Except Error c.Answer} (h : Unset s f first w.1)
    (hnone : w.1.ints (s.key f.watermark) = none)
    (still : ∀ (o : Reading) a, o.next ⟨.records c, .ok a⟩ = o)
    (hv : reading allowed w ⟨.records c, y⟩ v) :
    Unset s f first v.1 ∧ v.1.ints (s.key f.watermark) = none := by
  obtain ⟨hints, hgrows, hreading, -⟩ := reading_records hv
  have same : v.1.reading.seen = w.1.reading.seen ∧ v.1.reading.sent = w.1.reading.sent ∧
      v.1.reading.full = w.1.reading.full := by
    rw [hreading]
    cases y with
    | ok a => rw [still]; exact ⟨rfl, rfl, rfl⟩
    | error err => rw [Reading.next_error]; exact ⟨rfl, rfl, rfl⟩
  have unset : v.1.ints (s.key f.watermark) = none := by rw [hints, hnone]
  refine ⟨⟨hgrows.wellKept h.kept, by rw [hints]; exact h.others, fun seed hseed => ?_,
    same.1.trans h.seen, same.2.1.trans h.sent, same.2.2.trans h.full, fun _ => unset⟩, unset⟩
  exact absurd (unset.symm.trans hseed) (by simp)

theorem Unset.writes {latest : UInt64} (h : Unset s f first w.1)
    (answered : w.1.reading.missed = false) (hlatest : latest = largest (f.ids w.1.table)) :
    Shows.Writes (reading allowed) (fun w => Unset s f first w.1) (s.key f.watermark) latest w
      fun _ => True := by
  intro z hz
  obtain ⟨hints, htable, hreading, -⟩ := reading_write hz
  refine ⟨⟨htable ▸ h.kept, fun k hk => ?_, fun seed hseed => ?_, ?_, ?_, ?_, fun hm => ?_⟩, trivial⟩
  · rw [hints, Function.update_of_ne hk _ _]
    exact h.others k hk
  · rw [hints, Function.update_self] at hseed
    rw [htable, ← Option.some.inj hseed, hlatest]
    exact UInt64.le_refl _
  · rw [hreading]
    exact (List.append_nil _).trans h.seen
  · rw [hreading]
    exact h.sent
  · rw [hreading]
    exact h.full
  · rw [hreading, answered] at hm
    cases hm

section Sweeps
variable (failed : ∀ e err v, allowed e → e.error? = some err → E err v)
include failed

theorem seeds_read (h : Unset s f first w.1) (hnone : w.1.ints (s.key f.watermark) = none)
    (answered : w.1.reading.missed = false) :
    (s.tick (.feed f)).Ensures (reading allowed) (fun w => Unset s f first w.1) (.idle _) E w
      fun _ _ => True := by
  have shows := reading_shows failed
  have seeds : ∀ {c : RecordCall} {a : c.Answer} {latest : UInt64} {v : Reader × Option RecordTable},
      (∀ (o : Reading) a, o.next ⟨.records c, .ok a⟩ = o) →
      reading allowed w ⟨.records c, .ok a⟩ v → latest = largest (f.ids v.1.table) →
      ((v.1.ints (s.key f.watermark)).isSome = true → True) ∧
        (v.1.ints (s.key f.watermark) = none →
          Shows.Writes (reading allowed) (fun w => Unset s f first w.1) (s.key f.watermark) latest v
            fun _ => True) := by
    intro c a latest v still hv hlatest
    refine ⟨fun _ => trivial, fun _ => (h.asked hnone still hv).1.writes ?_ hlatest⟩
    rw [(reading_records hv).2.2.1, still]
    exact answered
  refine shows.ensures_tick (t := .feed f) h trivial (shows.ensures_sweepFeed h (fun _ => ?_) ?_)
  · cases f with
    | deposits =>
      refine ensures_records fun y v hv => ⟨(h.asked hnone (fun _ _ => rfl) hv).1, ?_⟩
      cases y with
      | error err => exact shows.failed hv rfl
      | ok a => exact seeds (fun _ _ => rfl) hv ((reading_records hv).2.2.2 a rfl)
    | claims =>
      refine ensures_records fun y v hv => ⟨(h.asked hnone (fun _ _ => rfl) hv).1, ?_⟩
      cases y with
      | error err => exact shows.failed hv rfl
      | ok a => exact seeds (fun _ _ => rfl) hv ((reading_records hv).2.2.2 a rfl)
  · intro start hstart
    exact absurd (hnone.symm.trans hstart) (by simp)

theorem follows_read {first : Contents} (h : Level s f start start first w.1) :
    (s.tick (.feed f)).Ensures (reading allowed) (fun w => Followed s f start first w.1)
      (following s f start first E) E w fun o v => o = .locked ∧ v = w ∨ Finished s f start first v := by
  have shows := reading_shows failed
  refine shows.ensures_tick (t := .feed f) h.amid.followed (.inl ⟨rfl, rfl⟩)
    (shows.ensures_sweepFeed h.amid.followed (fun hw => ?_) fun start' hstart => ?_)
  · exact absurd (hw.symm.trans h.amid.mark) (by simp)
  · obtain rfl := Option.some.inj (h.amid.mark.symm.trans hstart)
    refine ⟨⟨rfl, rfl, h⟩, fun r z _ hz => ?_⟩
    cases r with
    | ok res => exact .inr hz
    | error err => exact hz

end Sweeps

section Leads
variable {α : Type} {p q : Program α} {es : List Event}

theorem reading_of_leads (allowed : Event → Prop) (run : p.Leads shared.tabled m es q n)
    (ha : ∀ e ∈ es, allowed e) (o : Reading) (known : Option RecordTable) :
    ∃ known', p.Leads (reading allowed) (((m.1.ints, m.2), o), known) es q
      (((n.1.ints, n.2), es.foldl Reading.next o), known') := by
  have tables : p.Leads (numbers.tabled.only allowed) (m.1.ints, m.2) es q (n.1.ints, n.2) :=
    (run.map (T := numbers.tabled) (fun m : Memory × RecordTable => (m.1.ints, m.2)) fun _ _ _ h =>
      tabled_map (fun _ _ _ => numbers_of_shared) h).only ha
  exact (tables.noted Reading.next o).witnessed lastTable known

end Leads

section Ticks
variable {es : List Event} {p : Program (Except Error Outcome)}

theorem unset_of_leads (kept : m.2.WellKept) (hm : m.1.ints (s.key f.watermark) = none)
    (run : (s.tick (.feed f)).run.Leads shared.tabled m es p n) :
    Unset s f m.1.ints ((n.1.ints, n.2), es.foldl Reading.next .start) := by
  obtain ⟨known, read⟩ := reading_of_leads (fun _ => True) run (fun _ _ => trivial) .start none
  have unset := unset_start kept hm
  have htick : Routine.Ensures (reading fun _ => True) (fun w => Unset s f m.1.ints w.1) (.idle _)
      (fun _ _ => True) (s.tick (.feed f)) (((m.1.ints, m.2), .start), none) fun _ _ => True :=
    seeds_read (fun _ _ _ _ _ => trivial) unset hm rfl
  have always := Program.Ensures.invariant htick Contract.idle_kept unset read
  exact always

theorem follows_of_reading (failed : ∀ e err v, allowed e → e.error? = some err → E err v)
    (kept : m.2.WellKept) (hm : m.1.ints (s.key f.watermark) = some start) {o : Reading}
    {known : Option RecordTable}
    (read : (s.tick (.feed f)).run.Leads (reading allowed) (((m.1.ints, m.2), .start), none) es p
      (((n.1.ints, n.2), o), known)) :
    Followed s f start (m.1.ints, m.2) ((n.1.ints, n.2), o) ∧ ∀ r, p = .done r →
      Ends E (fun o' v => o' = .locked ∧ v = (((m.1.ints, m.2), .start), none) ∨
        Finished s f start (m.1.ints, m.2) v) r (((n.1.ints, n.2), o), known) := by
  have level := level_start kept hm
  have htick := follows_read failed (w := (((m.1.ints, m.2), .start), none)) level
  have always := Program.Ensures.invariant htick (following_kept failed) level.amid.followed read
  refine ⟨always, ?_⟩
  rintro r rfl
  have ended := Program.Ensures.result htick (following_kept failed) level.amid.followed read
  exact ended

theorem followed_of_leads (kept : m.2.WellKept) (hm : m.1.ints (s.key f.watermark) = some start)
    (run : (s.tick (.feed f)).run.Leads shared.tabled m es p n) :
    Followed s f start (m.1.ints, m.2) ((n.1.ints, n.2), es.foldl Reading.next .start) := by
  have never : ∀ (e : Event) (err : Error) (v : Reader × Option RecordTable), True →
      e.error? = some err → True := fun _ _ _ _ _ => trivial
  obtain ⟨known, read⟩ := reading_of_leads (fun _ => True) run (fun _ _ => trivial) .start none
  exact (follows_of_reading never kept hm read).1

/-- A tick in which no call fails ends well, between two pages, and nothing is left of what there was
when it began, unless somebody else had the lock. -/
theorem level_of_leads (kept : m.2.WellKept) (hm : m.1.ints (s.key f.watermark) = some start)
    {r : Except Error Outcome} (run : (s.tick (.feed f)).run.Leads shared.tabled m es (.done r) n)
    (unfailing : ∀ e ∈ es, e.error? = none) : ∃ o, r = .ok o ∧ ∃ last,
      Level s f start last (m.1.ints, m.2) ((n.1.ints, n.2), es.foldl Reading.next .start) ∧
        (o ≠ .locked → ∀ id ∈ f.ids m.2, id ≤ last) := by
  have failed : ∀ (e : Event) (err : Error) (v : Reader × Option RecordTable), e.error? = none →
      e.error? = some err → False := fun e err v h h' => absurd (h.symm.trans h') (by simp)
  obtain ⟨known, read⟩ := reading_of_leads (·.error? = none) run unfailing .start none
  have ended := (follows_of_reading failed kept hm read).2 r rfl
  cases r with
  | error err => exact ended.elim
  | ok o =>
    refine ⟨o, rfl, ?_⟩
    obtain ⟨locked, same⟩ | ⟨last, level, t, -, grown, exhausted⟩ := ended
    · have same : ((n.1.ints, n.2), es.foldl Reading.next .start) = ((m.1.ints, m.2), .start) :=
        congrArg Prod.fst same
      rw [same]
      exact ⟨start, level_start kept hm, fun h => absurd locked h⟩
    · refine ⟨last, level, fun _ id hid => exhausted.le id ?_⟩
      obtain ⟨more, hmore⟩ := Feed.ids_grows (f := f) grown
      rw [hmore]
      exact List.mem_append_left _ hid

/-- A run that goes through `x` when it reads its last page. -/
def LastPage {α : Type} (p q : Program α) (es : List Event) (m x n : Memory × RecordTable) : Prop :=
  ∃ before e after r, es = before ++ [e] ++ after ∧ e.isPage = true ∧
    (∀ e ∈ after, e.isPage = false) ∧ p.Leads shared.tabled m (before ++ [e]) r x ∧
      r.Leads shared.tabled x after q n

theorem exists_lastPage {α : Type} {p q : Program α} (run : p.Leads shared.tabled m es q n)
    (page : es.any Event.isPage = true) : ∃ x, LastPage p q es m x n := by
  have last : ∃ before e after, es = before ++ [e] ++ after ∧ e.isPage = true ∧
      ∀ e ∈ after, e.isPage = false := by
    clear run
    induction es with
    | nil => cases page
    | cons e es ih =>
      cases rest : es.any Event.isPage with
      | true =>
        obtain ⟨before, e', after, rfl, hlast⟩ := ih rest
        exact ⟨e :: before, e', after, rfl, hlast⟩
      | false =>
        rw [List.any_cons, rest, Bool.or_false] at page
        refine ⟨[], e, es, rfl, page, fun e' he' => ?_⟩
        exact Bool.eq_false_iff.2 (List.any_eq_false.1 rest e' he')
  obtain ⟨before, e, after, rfl, page, unread⟩ := last
  obtain ⟨r, x, first, rest⟩ := run.split
  exact ⟨x, before, e, after, r, rfl, page, unread, first, rest⟩

theorem same_of_unread {p q : Program (Except Error Outcome)} {w v : Reader × Option RecordTable}
    (run : p.Leads (reading allowed) w es q v) (unread : ∀ e ∈ es, e.isPage = false) : v.2 = w.2 := by
  refine run.same (f := Prod.snd) fun e he u v hv => ?_
  have seen : v.2 = lastTable u.2 e v.1 := hv.2
  rw [seen, lastTable, if_neg (by simp [unread e he])]

theorem mark_of_ok (kept : m.2.WellKept) (hm : m.1.ints (s.key f.watermark) = some start)
    (hstart : start ≤ largest (f.ids m.2)) {o : Outcome} (got : o ≠ .locked)
    (run : (s.tick (.feed f)).run.Leads shared.tabled m es (.done (.ok o)) n) :
    ∃ x, LastPage (s.tick (.feed f)).run (.done (.ok o)) es m x n ∧
      n.1.ints (s.key f.watermark) = some (largest (f.ids x.2)) := by
  have never : ∀ (e : Event) (err : Error) (v : Reader × Option RecordTable), True →
      e.error? = some err → True := fun _ _ _ _ _ => trivial
  have ends : ∀ {known : Option RecordTable} {o' : Reading},
      (s.tick (.feed f)).run.Leads (reading fun _ => True) (((m.1.ints, m.2), .start), none) es
        (.done (.ok o)) (((n.1.ints, n.2), o'), known) →
      ∃ last, n.1.ints (s.key f.watermark) = some last ∧ AtEnd f start last (m.1.ints, m.2) known := by
    intro known o' read
    obtain ⟨locked, -⟩ | ⟨last, level, atEnd⟩ :=
      (follows_of_reading never kept hm read).2 (.ok o) rfl
    · exact absurd locked got
    · exact ⟨last, level.amid.mark, atEnd⟩
  have page : es.any Event.isPage = true := by
    cases unread : es.any Event.isPage with
    | true => rfl
    | false =>
      obtain ⟨known, read⟩ := reading_of_leads (fun _ => True) run (fun _ _ => trivial) .start none
      obtain ⟨-, -, t, ht, -⟩ := ends read
      have none := same_of_unread read fun e he => Bool.eq_false_iff.2 (List.any_eq_false.1 unread e he)
      exact absurd (none.symm.trans ht) (by simp)
  obtain ⟨x, before, e, after, r, rfl, page, unread, first, rest⟩ := exists_lastPage run page
  refine ⟨x, ⟨before, e, after, r, rfl, page, unread, first, rest⟩, ?_⟩
  obtain ⟨known, read⟩ := reading_of_leads (fun _ => True) first (fun _ _ => trivial) .start none
  obtain ⟨known', read'⟩ := reading_of_leads (fun _ => True) rest (fun _ _ => trivial)
    ((before ++ [e]).foldl Reading.next .start) known
  have noted : known' = some x.2 := by
    obtain ⟨u, hu⟩ := read.last
    have seen : known = lastTable u.2 e ((x.1.ints, x.2), _) := hu.2
    rw [lastTable, if_pos page] at seen
    exact (same_of_unread read' unread).trans seen
  obtain ⟨top, mark, t, ht, -, atEnd⟩ := ends (read.trans read')
  obtain rfl : x.2 = t := Option.some.inj (noted.symm.trans ht)
  have hle : top ≤ largest (f.ids x.2) := by
    obtain rfl | hle := atEnd.known
    · exact UInt64.le_trans hstart (Feed.largest_grows (grows_of_leads first))
    · exact hle
  rw [mark, UInt64.le_antisymm hle (largest_le_iff.2 atEnd.le)]

end Ticks
end Setup

def feedReadings (f : Feed) (ts : List Tick) : List Reading :=
  (ts.filter (·.task = .feed f)).map Tick.reading

def feedDone (f : Feed) (ts : List Tick) : List (UInt64 × Option Notice) :=
  (feedReadings f ts).flatMap Reading.done

def feedSeen (f : Feed) (ts : List Tick) : List (UInt64 × Option Notice) :=
  (feedReadings f ts).flatMap Reading.seen

def feedSent (f : Feed) (ts : List Tick) : List Notice :=
  (feedReadings f ts).flatMap Reading.sent

theorem feedReadings_concat {f : Feed} {t : Tick} (ht : t.task = .feed f) (ts : List Tick) :
    feedReadings f (ts ++ [t]) = feedReadings f ts ++ [t.reading] := by
  simp [feedReadings, ht]

theorem feedReadings_concat_of_ne {f : Feed} {t : Tick} (ht : t.task ≠ .feed f) (ts : List Tick) :
    feedReadings f (ts ++ [t]) = feedReadings f ts := by
  simp [feedReadings, ht]

section Concat
variable {f : Feed} {ts : List Tick} {es : List Event} {r : Option (Except Error Outcome)}

theorem feedDone_concat : feedDone f (ts ++ [⟨.feed f, es, r⟩]) =
    feedDone f ts ++ (es.foldl Reading.next .start).done := by
  simp [feedDone, feedReadings_concat, Tick.reading]

theorem feedSeen_concat : feedSeen f (ts ++ [⟨.feed f, es, r⟩]) =
    feedSeen f ts ++ (es.foldl Reading.next .start).seen := by
  simp [feedSeen, feedReadings_concat, Tick.reading]

theorem feedSent_concat : feedSent f (ts ++ [⟨.feed f, es, r⟩]) =
    feedSent f ts ++ (es.foldl Reading.next .start).sent := by
  simp [feedSent, feedReadings_concat, Tick.reading]

theorem feed_concat_of_ne {t : Tick} (ht : t.task ≠ .feed f) (ts : List Tick) :
    feedDone f (ts ++ [t]) = feedDone f ts ∧ feedSeen f (ts ++ [t]) = feedSeen f ts ∧
      feedSent f (ts ++ [t]) = feedSent f ts := by
  simp only [feedDone, feedSeen, feedSent, feedReadings_concat_of_ne ht, and_self]

end Concat

namespace Setup
open Routine Surroundings

variable {s : Setup} {f : Feed} {seed : UInt64} {since : RecordTable} {ts : List Tick}
variable {m₀ m : Memory × RecordTable}

/-- What is known of a feed since its watermark was set to `seed`, whatever calls failed: the rows
up to the watermark were gone through, each with the notice it called for then, and all those
notices were sent. Nothing was sent but notices of rows above `seed`. -/
structure CatchesUp (s : Setup) (f : Feed) (seed : UInt64) (since : RecordTable) (ts : List Tick)
    (m : Memory × RecordTable) : Prop where
  kept : m.2.WellKept
  grown : since.Grows m.2
  mark : ∃ last, m.1.ints (s.key f.watermark) = some last ∧ seed ≤ last ∧
    last ≤ largest (f.ids m.2) ∧
      (feedDone f ts).map Prod.fst = (f.ids m.2).filter (idsBetween seed last)
  done : (feedDone f ts).Sublist (feedSeen f ts)
  rows : ∀ row ∈ feedSeen f ts, seed < row.1 ∧ f.Calls since m.2 row
  sent : (s.told ((feedDone f ts).filterMap Prod.snd)).Sublist (feedSent f ts)
  only : (feedSent f ts).Sublist (s.told ((feedSeen f ts).filterMap Prod.snd))

/-- When no call fails, rows are gone through once each and in id order, those up to the watermark
before the others, and their notices are sent once each in that order. -/
structure InOrder (s : Setup) (f : Feed) (seed : UInt64) (ts : List Tick)
    (m : Memory × RecordTable) : Prop where
  seen : (feedSeen f ts).map Prod.fst <+: (f.ids m.2).filter (seed < ·)
  done : feedDone f ts <+: feedSeen f ts
  sent : feedSent f ts <+: s.told ((feedSeen f ts).filterMap Prod.snd)
  all : s.told ((feedDone f ts).filterMap Prod.snd) <+: feedSent f ts

theorem told_filterMap_append (xs ys : List (UInt64 × Option Notice)) :
    s.told ((xs ++ ys).filterMap Prod.snd) =
      s.told (xs.filterMap Prod.snd) ++ s.told (ys.filterMap Prod.snd) := by
  rw [List.filterMap_append, told_append]

theorem feed_mark_eq {t : Task} {es : List Event} {p : Program (Except Error Outcome)}
    (run : (s.tick t).run.Leads shared.tabled m₀ es p m) (ht : t ≠ .feed f) :
    m.1.ints (s.key f.watermark) = m₀.1.ints (s.key f.watermark) := by
  have all : (s.tick t).run.Leads shared m₀.1 es p m.1 := run.map Prod.fst fun _ _ _ h => h.1
  refine ints_of_not_owned all (s.key_not_mem_owned fun h => ht ?_)
  rw [h]
  cases f <;> rfl

namespace CatchesUp

variable {es : List Event} {p : Program (Except Error Outcome)} {n : Memory × RecordTable}

theorem start (kept : m.2.WellKept) (hm : m.1.ints (s.key f.watermark) = some seed)
    (hle : seed ≤ largest (f.ids m.2)) : CatchesUp s f seed m.2 [] m where
  kept := kept
  grown := .refl _
  mark := ⟨seed, hm, UInt64.le_refl _, hle, (filter_idsBetween_self _ _).symm⟩
  done := .slnil
  rows _ h := nomatch h
  sent := (told_nil (s := s)).symm ▸ .slnil
  only := List.nil_sublist _

theorem other {t : Task} (h : CatchesUp s f seed since ts m) (ht : t ≠ .feed f)
    (run : (s.tick t).run.Leads shared.tabled m es p n) :
    CatchesUp s f seed since (ts ++ [⟨t, es, p.result?⟩]) n := by
  have grows := grows_of_leads run
  obtain ⟨hdone, hseen, hsent⟩ := feed_concat_of_ne (t := ⟨t, es, p.result?⟩) ht ts
  obtain ⟨last, hlast, hle, htop, hids⟩ := h.mark
  refine ⟨grows.wellKept h.kept, h.grown.trans grows,
    ⟨last, ?_, hle, UInt64.le_trans htop (Feed.largest_grows grows), ?_⟩, ?_, fun row hrow => ?_, ?_, ?_⟩
  · rw [feed_mark_eq run ht, hlast]
  · rw [hdone, hids, Feed.between_grows grows h.kept (.inr htop)]
  · rw [hdone, hseen]
    exact h.done
  · rw [hseen] at hrow
    exact ⟨(h.rows row hrow).1, (h.rows row hrow).2.grows grows⟩
  · rw [hdone, hsent]
    exact h.sent
  · rw [hsent, hseen]
    exact h.only

theorem followed (h : CatchesUp s f seed since ts m)
    (run : (s.tick (.feed f)).run.Leads shared.tabled m es p n) :
    ∃ last, m.1.ints (s.key f.watermark) = some last ∧ seed ≤ last ∧ last ≤ largest (f.ids m.2) ∧
      (feedDone f ts).map Prod.fst = (f.ids n.2).filter (idsBetween seed last) ∧
      Followed s f last (m.1.ints, m.2) ((n.1.ints, n.2), es.foldl Reading.next .start) := by
  obtain ⟨last, hlast, hle, htop, hids⟩ := h.mark
  refine ⟨last, hlast, hle, htop, ?_, followed_of_leads h.kept hlast run⟩
  rw [hids, Feed.between_grows (grows_of_leads run) h.kept (.inr htop)]

theorem tick (h : CatchesUp s f seed since ts m)
    (run : (s.tick (.feed f)).run.Leads shared.tabled m es p n) :
    CatchesUp s f seed since (ts ++ [⟨.feed f, es, p.result?⟩]) n := by
  have grows := grows_of_leads run
  obtain ⟨last, hlast, hle, htop, hids, followed⟩ := h.followed run
  obtain ⟨last', hlast', hle', htop', hids'⟩ := followed.mark
  have sorted : (f.ids n.2).Pairwise (· < ·) := Feed.ids_sorted followed.kept
  have top : last' ≤ largest (f.ids n.2) := by
    obtain rfl | htop' := htop'
    · exact UInt64.le_trans htop (Feed.largest_grows grows)
    · exact htop'
  refine ⟨followed.kept, h.grown.trans grows, ⟨last', hlast', UInt64.le_trans hle hle', top, ?_⟩, ?_,
    fun row hrow => ?_, ?_, ?_⟩
  · rw [feedDone_concat, List.map_append, hids, ← filter_idsBetween_append sorted hle hle']
    exact congrArg _ hids'
  · rw [feedDone_concat, feedSeen_concat]
    exact h.done.append (List.sublist_append_left _ _)
  · rw [feedSeen_concat] at hrow
    obtain hrow | hrow := List.mem_append.1 hrow
    · exact ⟨(h.rows row hrow).1, (h.rows row hrow).2.grows grows⟩
    · have above := followed.seen.subset (List.mem_map_of_mem hrow)
      rw [List.mem_filter, decide_eq_true_eq] at above
      exact ⟨UInt64.lt_of_le_of_lt hle above.2, (followed.rows row hrow).since h.grown⟩
  · rw [feedDone_concat, feedSent_concat, told_filterMap_append]
    exact h.sent.append followed.all.sublist
  · rw [feedSent_concat, feedSeen_concat, told_filterMap_append]
    exact h.only.append followed.sent.sublist

end CatchesUp

theorem runs_catchesUp (start : CatchesUp s f seed since [] m₀) (run : s.Runs shared.tabled m₀ ts m) :
    CatchesUp s f seed since ts m := by
  induction run with
  | start => exact start
  | @tick ts w u es p before t run ih =>
    by_cases ht : t = .feed f
    · subst ht
      exact ih.tick run
    · exact ih.other ht run

structure AtRest (s : Setup) (f : Feed) (ts : List Tick) : Prop where
  seen : feedSeen f ts = feedDone f ts
  sent : feedSent f ts = s.told ((feedDone f ts).filterMap Prod.snd)

theorem runs_atRest (start : CatchesUp s f seed since [] m₀) (run : s.Runs shared.tabled m₀ ts m)
    (calm : ∀ t ∈ ts, t.task = .feed f → t.Undisturbed) : AtRest s f ts := by
  induction run with
  | start => exact ⟨rfl, told_nil.symm⟩
  | @tick ts w u es p before t run ih =>
    have ih := ih fun t ht => calm t (List.mem_append_left _ ht)
    by_cases ht : t = .feed f
    · subst ht
      have caught := runs_catchesUp start before
      obtain ⟨last, hlast, -⟩ := caught.mark
      have undisturbed := calm ⟨.feed f, es, p.result?⟩ (by simp) rfl
      obtain ⟨r, hr⟩ := Option.isSome_iff_exists.1 undisturbed.complete
      obtain rfl := Program.eq_done_of_result? hr
      obtain ⟨-, -, last', level, -⟩ := level_of_leads caught.kept hlast run undisturbed.unfailing
      refine ⟨?_, ?_⟩
      · rw [feedSeen_concat, feedDone_concat, ih.seen]
        exact congrArg _ level.seen_eq
      · rw [feedSent_concat, feedDone_concat, told_filterMap_append, ih.sent]
        exact congrArg _ level.sent_eq
    · obtain ⟨hdone, hseen, hsent⟩ := feed_concat_of_ne (t := ⟨t, es, p.result?⟩) ht ts
      refine ⟨?_, ?_⟩
      · rw [hseen, hdone, ih.seen]
      · rw [hsent, hdone, ih.sent]

theorem AtRest.inOrder (h : AtRest s f ts) (caught : CatchesUp s f seed since ts m) :
    InOrder s f seed ts m := by
  obtain ⟨last, -, -, -, hids⟩ := caught.mark
  have sent : feedSent f ts = s.told ((feedSeen f ts).filterMap Prod.snd) := by rw [h.sent, h.seen]
  refine ⟨?_, h.seen ▸ List.prefix_rfl, sent ▸ List.prefix_rfl, h.sent ▸ List.prefix_rfl⟩
  rw [h.seen, hids]
  exact filter_idsBetween_above (Feed.ids_sorted caught.kept) seed last

theorem AtRest.followed (h : AtRest s f ts) (caught : CatchesUp s f seed since ts m) {es : List Event}
    {p : Program (Except Error Outcome)} {n : Memory × RecordTable}
    (run : (s.tick (.feed f)).run.Leads shared.tabled m es p n) :
    InOrder s f seed (ts ++ [⟨.feed f, es, p.result?⟩]) n := by
  obtain ⟨last, -, hle, -, hids, followed⟩ := caught.followed run
  have sorted : (f.ids n.2).Pairwise (· < ·) := Feed.ids_sorted followed.kept
  refine ⟨?_, ?_, ?_, ?_⟩
  · have whole : (f.ids n.2).filter (seed < ·) =
        (f.ids n.2).filter (idsBetween seed last) ++ (f.ids n.2).filter (last < ·) := by
      rw [filter_split sorted (seed < ·) last]
      congr 1
      refine List.filter_congr fun p _ => Bool.eq_iff_iff.2 ?_
      rw [Bool.and_eq_true, decide_eq_true_eq, decide_eq_true_eq]
      exact and_iff_right_of_imp (UInt64.lt_of_le_of_lt hle)
    rw [feedSeen_concat, List.map_append, h.seen, hids, whole]
    exact (List.prefix_append_right_inj _).2 followed.seen
  · rw [feedDone_concat, feedSeen_concat, h.seen]
    exact (List.prefix_append_right_inj _).2 (List.prefix_append _ _)
  · rw [feedSent_concat, feedSeen_concat, told_filterMap_append, h.seen, h.sent]
    exact (List.prefix_append_right_inj _).2 followed.sent
  · rw [feedSent_concat, feedDone_concat, told_filterMap_append, h.sent]
    exact (List.prefix_append_right_inj _).2 followed.all

theorem runs_inOrder (start : CatchesUp s f seed since [] m₀) (run : s.Runs shared.tabled m₀ ts m)
    (unfailing : ∀ t ∈ ts, t.task = .feed f → ∀ e ∈ t.events, e.error? = none)
    (complete : ∀ t ∈ ts.dropLast, t.task = .feed f → t.result.isSome = true) :
    InOrder s f seed ts m := by
  cases run with
  | start => exact (runs_atRest start .start fun t ht => nomatch ht).inOrder start
  | @tick ts w u es p before t run =>
    rw [List.dropLast_concat] at complete
    have rest := runs_atRest start before fun t ht hf =>
      ⟨complete t ht hf, unfailing t (List.mem_append_left _ ht) hf⟩
    have caught := runs_catchesUp start before
    by_cases ht : t = .feed f
    · subst ht
      exact rest.followed caught run
    · obtain ⟨hdone, hseen, hsent⟩ := feed_concat_of_ne (t := ⟨t, es, p.result?⟩) ht ts
      have still : AtRest s f (ts ++ [⟨t, es, p.result?⟩]) := by
        refine ⟨?_, ?_⟩
        · rw [hseen, hdone, rest.seen]
        · rw [hsent, hdone, rest.sent]
      exact still.inOrder (caught.other ht run)

theorem runs_kept (kept : m₀.2.WellKept) (run : s.Runs shared.tabled m₀ ts m) : m.2.WellKept := by
  induction run with
  | start => exact kept
  | tick before t run ih => exact (grows_of_leads run).wellKept ih

theorem runs_unset (kept : m₀.2.WellKept) (run : s.Runs shared.tabled m₀ ts m)
    (unset : m.1.ints (s.key f.watermark) = none) : feedSeen f ts = [] ∧ feedSent f ts = [] := by
  induction run with
  | start => exact ⟨rfl, rfl⟩
  | @tick ts w u es p before t run ih =>
    have wkept := runs_kept kept before
    by_cases ht : t = .feed f
    · subst ht
      cases hw : w.1.ints (s.key f.watermark) with
      | none =>
        obtain ⟨hseen, hsent⟩ := ih hw
        have none := unset_of_leads wkept hw run
        rw [feedSeen_concat, feedSent_concat, hseen, hsent]
        exact ⟨none.seen, none.sent⟩
      | some start =>
        -- a watermark is never removed
        obtain ⟨last, hlast, -⟩ := (followed_of_leads wkept hw run).mark
        exact absurd (unset.symm.trans hlast) (by simp)
    · obtain ⟨-, hseen, hsent⟩ := feed_concat_of_ne (t := ⟨t, es, p.result?⟩) ht ts
      rw [feed_mark_eq run ht] at unset
      rw [hseen, hsent]
      exact ih unset

section Seeding
variable {before : List Tick} {t : Task} {es : List Event} {p : Program (Except Error Outcome)}
variable {u v : Memory × RecordTable}

theorem seeded_by (run : (s.tick t).run.Leads shared.tabled u es p v)
    (unset : u.1.ints (s.key f.watermark) = none)
    (seeded : v.1.ints (s.key f.watermark) = some seed) : t = .feed f := by
  by_cases ht : t = .feed f
  · exact ht
  · rw [feed_mark_eq run ht, unset] at seeded
    cases seeded

theorem seeded_catchesUp (kept : u.2.WellKept) (unset : u.1.ints (s.key f.watermark) = none)
    (run : (s.tick t).run.Leads shared.tabled u es p v)
    (seeded : v.1.ints (s.key f.watermark) = some seed) : CatchesUp s f seed v.2 [] v := by
  obtain rfl := seeded_by run unset seeded
  have first := unset_of_leads kept unset run
  exact .start first.kept seeded (first.mark seed seeded)

/-- A feed loses nothing on failures. Before its watermark is first set, nothing is gone through.
From then on, every row up to the watermark was gone through and its notice sent, and nothing was
sent for older rows; if no call fails, each once and in id order. A tick that ends well leaves the
watermark at the largest id there was when its last page was read. -/
theorem feed_loses_nothing (kept : m₀.2.WellKept) (earlier : s.Runs shared.tabled m₀ before u)
    (unset : u.1.ints (s.key f.watermark) = none)
    (first : (s.tick t).run.Leads shared.tabled u es p v)
    (seeded : v.1.ints (s.key f.watermark) = some seed) (later : s.Runs shared.tabled v ts m) :
    (feedSeen f (before ++ [⟨t, es, p.result?⟩]) = [] ∧
      feedSent f (before ++ [⟨t, es, p.result?⟩]) = []) ∧
    CatchesUp s f seed v.2 ts m ∧
    ((∀ t ∈ ts, t.task = .feed f → ∀ e ∈ t.events, e.error? = none) →
      (∀ t ∈ ts.dropLast, t.task = .feed f → t.result.isSome = true) → InOrder s f seed ts m) ∧
    ∀ es o n, (s.tick (.feed f)).run.Leads shared.tabled m es (.done (.ok o)) n → o ≠ .locked →
      ∃ x, LastPage (s.tick (.feed f)).run (.done (.ok o)) es m x n ∧
        n.1.ints (s.key f.watermark) = some (largest (f.ids x.2)) := by
  have ukept := runs_kept kept earlier
  have start := seeded_catchesUp ukept unset first seeded
  have caught := runs_catchesUp start later
  refine ⟨?_, caught, runs_inOrder start later, fun es o n run got => ?_⟩
  · obtain rfl := seeded_by first unset seeded
    obtain ⟨hseen, hsent⟩ := runs_unset kept earlier unset
    have none := unset_of_leads ukept unset first
    rw [feedSeen_concat, feedSent_concat, hseen, hsent]
    exact ⟨none.seen, none.sent⟩
  · obtain ⟨mark, hmark, -, htop, -⟩ := caught.mark
    exact mark_of_ok caught.kept hmark htop got run

end Seeding

open Simulation

def fourDeposits : RecordTable :=
  ⟨twoDeposits.deposits ++ [⟨3, mainDeposit 9 22, false⟩, ⟨4, mainDeposit 10 23, false⟩], []⟩

theorem grows_fourDeposits : twoDeposits.Grows fourDeposits :=
  ⟨⟨_, rfl⟩, ⟨[], rfl⟩, fun _ => ⟨by decide, by decide, by decide, by decide⟩⟩

def seededWorld : World :=
  { (trace 60 (onePerPage.tick (.feed .deposits)).run depositWorld).2.2 with
    records := .initial fourDeposits }

/-- The write after the first page is refused, so the next tick reads that page again. -/
def refusedWrite : List Turn :=
  [⟨.feed .deposits, fun w => { w with
      store := { w.store with refused := [onePerPage.key .depositFeed] } }⟩,
    ⟨.feed .deposits, id⟩]

theorem runs_refusedWrite : onePerPage.Runs shared.tabled (seededWorld.store.memory, twoDeposits)
    (play onePerPage 60 refusedWrite seededWorld).1
    ((play onePerPage 60 refusedWrite seededWorld).2.store.memory, fourDeposits) := by
  have run := runs_play_tabled onePerPage 60 refusedWrite seededWorld (by simp [refusedWrite])
  have table : (play onePerPage 60 refusedWrite seededWorld).2.records.table = fourDeposits := by
    decide +kernel
  rw [table] at run
  exact run.of_grown grows_fourDeposits (by decide +kernel)

theorem feed_loses_nothing_refusedWrite :
    CatchesUp onePerPage .deposits 2 twoDeposits (play onePerPage 60 refusedWrite seededWorld).1
      ((play onePerPage 60 refusedWrite seededWorld).2.store.memory, fourDeposits) ∧
    (feedDone .deposits (play onePerPage 60 refusedWrite seededWorld).1).map Prod.fst = [3, 4] ∧
    (feedSent .deposits (play onePerPage 60 refusedWrite seededWorld).1).map (·.deposit) =
      [mainDeposit 9 22, mainDeposit 9 22, mainDeposit 10 23] := by
  have first : (onePerPage.tick (.feed .deposits)).run.Leads shared.tabled (.empty, twoDeposits)
      (trace 60 (onePerPage.tick (.feed .deposits)).run depositWorld).1
      (trace 60 (onePerPage.tick (.feed .deposits)).run depositWorld).2.1
      (seededWorld.store.memory, twoDeposits) := by
    have run := (leads_trace 60 (onePerPage.tick (.feed .deposits)).run depositWorld).map
      (fun w => (w.store.memory, w.records.table)) fun _ _ _ => tabled_of_scripted
    have table : (trace 60 (onePerPage.tick (.feed .deposits)).run depositWorld).2.2.records.table =
        twoDeposits := by decide +kernel
    rw [table] at run
    exact run
  have seeded : seededWorld.store.memory.ints (onePerPage.key .depositFeed) = some 2 := by
    decide +kernel
  obtain ⟨-, caught, -⟩ := feed_loses_nothing (f := .deposits) wellKept_twoDeposits .start rfl first
    seeded runs_refusedWrite
  exact ⟨caught, by decide +kernel, by decide +kernel⟩

end Setup
end BridgeNotifier
