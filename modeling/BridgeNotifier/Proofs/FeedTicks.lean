import BridgeNotifier.Proofs.FeedReading
set_option autoImplicit false

namespace BridgeNotifier
open RecordTable

namespace Setup

def told (s : Setup) (ns : List Notice) : List Notice :=
  if s.transport then ns else []

section Told
variable {s : Setup} {n : Notice} {ns ms : List Notice}

theorem told_append (ns ms : List Notice) : s.told (ns ++ ms) = s.told ns ++ s.told ms := by
  unfold told
  split <;> rfl

theorem told_nil : s.told [] = [] := by
  unfold told
  split <;> rfl

def toTell (ns : List Notice) : List Notice :=
  ns.filter fun n => n.deposit.isAsset

theorem told_skipped (h : (s.dispatcher.enabled && n.deposit.isAsset) = false) :
    s.told (toTell (n :: ns)) = s.told (toTell ns) := by
  rw [Bool.and_eq_false_iff] at h
  obtain h | h := h
  · have off : s.transport = false := h
    simp [told, off]
  · rw [toTell, List.filter_cons_of_neg (by simp [h]), toTell]

theorem told_launched (h : (s.dispatcher.enabled && n.deposit.isAsset) = true) :
    s.told (toTell (n :: ns)) = n :: s.told (toTell ns) := by
  rw [Bool.and_eq_true] at h
  have on : s.transport = true := h.1
  rw [toTell, List.filter_cons_of_pos (by simp [h.2]), told, told, if_pos on, if_pos on, toTell]

end Told

/-- A tick that began at `start` has settled the rows up to `last` and is at the page that reaches up
to `stop`: some of its ids are left, and some notices were not yet sent. -/
structure Amid (s : Setup) (f : Feed) (start last stop : UInt64) (left : List UInt64)
    (unsent : List Notice) (first : Contents) (w : Reader) : Prop where
  kept : w.table.WellKept
  grown : first.2.Grows w.table
  others : ∀ k, k ≠ s.key f.watermark → w.ints k = first.1 k
  mark : w.ints (s.key f.watermark) = some last
  start_le : start ≤ last
  last_le : last ≤ stop
  known : stop = start ∨ stop ≤ largest (f.ids w.table)
  done : w.reading.done.map Prod.fst = (f.ids w.table).filter (idsBetween start last)
  page : w.reading.page.map Prod.fst ++ left = (f.ids w.table).filter (idsBetween last stop)
  rows : ∀ row ∈ w.reading.seen, f.Calls first.2 w.table row
  sent : w.reading.sent ++ s.told (toTell unsent) = s.told (w.reading.seen.filterMap Prod.snd)
  all : s.told (w.reading.done.filterMap Prod.snd) <+: w.reading.sent
  answered : w.reading.missed = false

/-- A tick is between two pages. -/
structure Level (s : Setup) (f : Feed) (start last : UInt64) (first : Contents)
    (w : Reader) : Prop where
  amid : Amid s f start last last [] [] first w
  full : w.reading.full.getD start = last

/-- What holds at every point of a tick of a feed that began at `start`. -/
structure Followed (s : Setup) (f : Feed) (start : UInt64) (first : Contents)
    (w : Reader) : Prop where
  kept : w.table.WellKept
  others : ∀ k, k ≠ s.key f.watermark → w.ints k = first.1 k
  mark : ∃ last, w.ints (s.key f.watermark) = some last ∧ start ≤ last ∧
    (last = start ∨ last ≤ largest (f.ids w.table)) ∧
      w.reading.done.map Prod.fst = (f.ids w.table).filter (idsBetween start last)
  seen : w.reading.seen.map Prod.fst <+: (f.ids w.table).filter (start < ·)
  rows : ∀ row ∈ w.reading.seen, f.Calls first.2 w.table row
  sent : w.reading.sent <+: s.told (w.reading.seen.filterMap Prod.snd)
  all : s.told (w.reading.done.filterMap Prod.snd) <+: w.reading.sent
  missed : w.reading.missed = true →
    w.ints (s.key f.watermark) = some (w.reading.full.getD start) ∧
      w.reading.sent = s.told (w.reading.seen.filterMap Prod.snd)

structure SameButPage (o o' : Reading) : Prop where
  done : o'.done = o.done
  sent : o'.sent = o.sent
  missed : o'.missed = o.missed

variable {s : Setup} {f : Feed} {start last stop : UInt64} {left : List UInt64}
variable {unsent : List Notice} {first : Contents} {w v : Reader}

namespace Amid

theorem last_known (h : Amid s f start last stop left unsent first w) :
    last = start ∨ last ≤ largest (f.ids w.table) := by
  obtain hstop | hstop := h.known
  · have hle := h.last_le
    rw [hstop] at hle
    exact .inl (UInt64.le_antisymm hle h.start_le)
  · exact .inr (UInt64.le_trans h.last_le hstop)

theorem seen_eq (h : Amid s f start last stop left unsent first w) :
    w.reading.seen.map Prod.fst ++ left = (f.ids w.table).filter (idsBetween start stop) := by
  rw [Reading.seen, List.map_append, List.append_assoc, h.page, h.done,
    filter_idsBetween_append (Feed.ids_sorted h.kept) h.start_le h.last_le]

theorem sent_eq (h : Amid s f start last stop left [] first w) :
    w.reading.sent = s.told (w.reading.seen.filterMap Prod.snd) := by
  rw [← h.sent, toTell, List.filter_nil, told_nil, List.append_nil]

theorem followed (h : Amid s f start last stop left unsent first w) : Followed s f start first w where
  kept := h.kept
  others := h.others
  mark := ⟨last, h.mark, h.start_le, h.last_known, h.done⟩
  seen := by
    have within : w.reading.seen.map Prod.fst <+: (f.ids w.table).filter (idsBetween start stop) :=
      ⟨left, h.seen_eq⟩
    exact within.trans (filter_idsBetween_above (Feed.ids_sorted h.kept) start stop)
  rows := h.rows
  sent := ⟨_, h.sent⟩
  all := h.all
  missed hm := by
    rw [h.answered] at hm
    cases hm

theorem skip {n : Notice} (h : Amid s f start last stop left (n :: unsent) first w)
    (hn : (s.dispatcher.enabled && n.deposit.isAsset) = false) :
    Amid s f start last stop left unsent first w :=
  { h with sent := by rw [← h.sent, told_skipped hn] }

theorem launch {n : Notice} (h : Amid s f start last stop left (n :: unsent) first w)
    (hn : (s.dispatcher.enabled && n.deposit.isAsset) = true) (hints : v.ints = w.ints)
    (htable : v.table = w.table)
    (hreading : v.reading = { w.reading with sent := w.reading.sent ++ [n] }) :
    Amid s f start last stop left unsent first v := by
  have hseen : v.reading.seen = w.reading.seen := by rw [hreading]; rfl
  have told : v.reading.sent ++ s.told (toTell unsent) =
      s.told (v.reading.seen.filterMap Prod.snd) := by
    rw [hseen, ← h.sent, told_launched hn, hreading, List.append_assoc, List.singleton_append]
  exact
    { h with
      kept := htable ▸ h.kept
      grown := htable ▸ h.grown
      others := by rw [hints]; exact h.others
      mark := by rw [hints]; exact h.mark
      known := by rw [htable]; exact h.known
      done := by rw [hreading, htable]; exact h.done
      page := by rw [hreading, htable]; exact h.page
      rows := by rw [hseen, htable]; exact h.rows
      sent := told
      all := by rw [hreading]; exact h.all.trans (List.prefix_append _ _)
      answered := by rw [hreading]; exact h.answered }

theorem write (h : Amid s f start last stop [] [] first w)
    (hints : v.ints = Function.update w.ints (s.key f.watermark) (some stop))
    (htable : v.table = w.table)
    (hreading : v.reading = { w.reading with page := [], done := w.reading.seen }) :
    Amid s f start stop stop [] [] first v := by
  have hseen : v.reading.seen = w.reading.seen := by
    rw [hreading]
    exact List.append_nil _
  have settled : s.told (v.reading.done.filterMap Prod.snd) = v.reading.sent := by
    rw [hreading, ← h.sent_eq]
  exact
    { kept := htable ▸ h.kept
      grown := htable ▸ h.grown
      others := fun k hk => by rw [hints, Function.update_of_ne hk _ _]; exact h.others k hk
      mark := by rw [hints, Function.update_self]
      start_le := UInt64.le_trans h.start_le h.last_le
      last_le := UInt64.le_refl _
      known := by rw [htable]; exact h.known
      done := by rw [hreading, htable, ← h.seen_eq, List.append_nil]
      page := by rw [hreading, filter_idsBetween_self]; rfl
      rows := by rw [hseen, htable]; exact h.rows
      sent := by rw [hseen, toTell, List.filter_nil, told_nil, List.append_nil, ← h.sent_eq, hreading]
      all := settled ▸ List.prefix_rfl
      answered := by rw [hreading]; exact h.answered }

theorem look {id : UInt64} {row : UInt64 × Option Notice}
    (h : Amid s f start last stop (id :: left) [] first w) (hints : v.ints = w.ints)
    (hgrows : w.table.Grows v.table) (same : SameButPage w.reading v.reading)
    (hpage : v.reading.page = w.reading.page ++ [row]) (hid : row.1 = id)
    (hcalls : f.Calls first.2 v.table row) (hrow : toTell unsent = row.2.toList) :
    Amid s f start last stop left unsent first v := by
  have hseen : v.reading.seen = w.reading.seen ++ [row] := by
    rw [Reading.seen, same.done, hpage, ← List.append_assoc]
    rfl
  have hstop : stop = last ∨ stop ≤ largest (f.ids w.table) := by
    refine h.known.imp_left fun hstop => UInt64.le_antisymm ?_ h.last_le
    exact hstop ▸ h.start_le
  have page : v.reading.page.map Prod.fst ++ left = (f.ids v.table).filter (idsBetween last stop) := by
    rw [hpage, Feed.between_grows hgrows h.kept hstop, ← h.page, List.map_append, List.append_assoc,
      List.map_singleton, hid, List.singleton_append]
  have rows : ∀ r ∈ v.reading.seen, f.Calls first.2 v.table r := by
    rw [hseen]
    intro r hr
    obtain hr | hr := List.mem_append.1 hr
    · exact (h.rows r hr).grows hgrows
    · exact List.mem_singleton.1 hr ▸ hcalls
  have told : v.reading.sent ++ s.told (toTell unsent) =
      s.told (v.reading.seen.filterMap Prod.snd) := by
    have last : [row].filterMap Prod.snd = row.2.toList := by
      cases hr : row.2 <;> simp [hr]
    rw [hseen, List.filterMap_append, told_append, last, same.sent, h.sent_eq, hrow]
  exact
    { h with
      kept := hgrows.wellKept h.kept
      grown := h.grown.trans hgrows
      others := by rw [hints]; exact h.others
      mark := by rw [hints]; exact h.mark
      known := h.known.imp_right fun hle => UInt64.le_trans hle (Feed.largest_grows hgrows)
      done := by rw [same.done, h.done, Feed.between_grows hgrows h.kept h.last_known]
      page := page
      rows := rows
      sent := told
      all := by rw [same.done, same.sent]; exact h.all
      answered := by rw [same.missed]; exact h.answered }

end Amid

namespace Level

theorem page_eq (h : Level s f start last first w) : w.reading.page = [] := by
  have hpage := h.amid.page
  rw [filter_idsBetween_self, List.append_nil] at hpage
  exact List.map_eq_nil_iff.1 hpage

theorem seen_eq (h : Level s f start last first w) : w.reading.seen = w.reading.done := by
  rw [Reading.seen, h.page_eq, List.append_nil]

theorem sent_eq (h : Level s f start last first w) :
    w.reading.sent = s.told (w.reading.done.filterMap Prod.snd) := by
  rw [← h.seen_eq, h.amid.sent_eq]

theorem read (h : Level s f start last first w) (hints : v.ints = w.ints)
    (hgrows : w.table.Grows v.table) (same : SameButPage w.reading v.reading) (hle : last ≤ stop)
    (hstop : stop = start ∨ stop ≤ largest (f.ids v.table))
    (hpage : v.reading.page.map Prod.fst ++ left = (f.ids v.table).filter (idsBetween last stop))
    (hrows : ∀ row ∈ v.reading.page, f.Calls first.2 v.table row)
    (hunsent : toTell unsent = v.reading.page.filterMap Prod.snd) :
    Amid s f start last stop left unsent first v := by
  have amid := h.amid
  have rows : ∀ row ∈ v.reading.seen, f.Calls first.2 v.table row := by
    intro row hrow
    obtain hrow | hrow := List.mem_append.1 hrow
    · rw [same.done] at hrow
      exact (amid.rows row (List.mem_append_left _ hrow)).grows hgrows
    · exact hrows row hrow
  have told : v.reading.sent ++ s.told (toTell unsent) =
      s.told (v.reading.seen.filterMap Prod.snd) := by
    rw [Reading.seen, List.filterMap_append, told_append, same.sent, same.done, h.sent_eq, hunsent]
  have settled : s.told (v.reading.done.filterMap Prod.snd) = v.reading.sent := by
    rw [same.done, same.sent, h.sent_eq]
  exact
    { kept := hgrows.wellKept amid.kept
      grown := amid.grown.trans hgrows
      others := by rw [hints]; exact amid.others
      mark := by rw [hints]; exact amid.mark
      start_le := amid.start_le
      last_le := hle
      known := hstop
      done := by rw [same.done, amid.done, Feed.between_grows hgrows amid.kept amid.last_known]
      page := hpage
      rows := rows
      sent := told
      all := settled ▸ List.prefix_rfl
      answered := by rw [same.missed]; exact amid.answered }

theorem still (h : Level s f start last first w) (hints : v.ints = w.ints)
    (hgrows : w.table.Grows v.table) (same : SameButPage w.reading v.reading)
    (hpage : v.reading.page = []) (hfull : v.reading.full = w.reading.full) :
    Level s f start last first v := by
  refine ⟨h.read hints hgrows same (UInt64.le_refl _) ?_ ?_ ?_ ?_, ?_⟩
  · exact h.amid.last_known.imp_right fun hle => UInt64.le_trans hle (Feed.largest_grows hgrows)
  · rw [hpage, filter_idsBetween_self]
    rfl
  · rw [hpage]
    exact fun row hrow => nomatch hrow
  · rw [hpage]
    rfl
  · rw [hfull]
    exact h.full

end Level

theorem Amid.missed (h : Amid s f start last stop left [] first w)
    (hfull : w.reading.full.getD start = last) (hints : v.ints = w.ints)
    (hgrows : w.table.Grows v.table) (hreading : v.reading = { w.reading with missed := true }) :
    Followed s f start first v := by
  have before := h.followed
  have hseen : v.reading.seen = w.reading.seen := by rw [hreading]; rfl
  have hstop : stop = start ∨ stop ≤ largest (f.ids w.table) := h.known
  have kept := hgrows.wellKept h.kept
  have within : w.reading.seen.map Prod.fst <+: (f.ids v.table).filter (idsBetween start stop) := by
    rw [Feed.between_grows hgrows h.kept hstop]
    exact ⟨left, h.seen_eq⟩
  have mark : v.ints (s.key f.watermark) = some last := by rw [hints, h.mark]
  have settled : v.reading.done.map Prod.fst = (f.ids v.table).filter (idsBetween start last) := by
    rw [hreading, Feed.between_grows hgrows h.kept h.last_known]
    exact h.done
  have known : last = start ∨ last ≤ largest (f.ids v.table) :=
    h.last_known.imp_right fun hle => UInt64.le_trans hle (Feed.largest_grows hgrows)
  exact
    { kept := kept
      others := by rw [hints]; exact h.others
      mark := ⟨last, mark, h.start_le, known, settled⟩
      seen := by
        rw [hseen]
        exact within.trans (filter_idsBetween_above (Feed.ids_sorted kept) start stop)
      rows := by rw [hseen]; exact fun row hrow => (h.rows row hrow).grows hgrows
      sent := by rw [hseen, hreading]; exact before.sent
      all := by rw [hreading]; exact h.all
      missed := fun _ => ⟨by rw [mark, hreading]; exact congrArg some hfull.symm,
        by rw [hseen, ← h.sent_eq, hreading]⟩ }

end Setup
end BridgeNotifier
