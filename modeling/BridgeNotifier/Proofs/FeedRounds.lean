import BridgeNotifier.Proofs.FeedTicks
set_option autoImplicit false

namespace BridgeNotifier
open RecordTable

/-- Nothing is left above `last` in a table, and `last` is where the tick began or a row's id. -/
structure Exhausted (f : Feed) (start last : UInt64) (t : RecordTable) : Prop where
  le : ∀ id ∈ f.ids t, id ≤ last
  known : last = start ∨ last ≤ largest (f.ids t)

section Rows
variable {α : Type} {rows : List (UInt64 × α)} {ids : List UInt64} {last i : UInt64} {k : Nat}

theorem page_ids (sorted : ids.Pairwise (· < ·))
    (hrows : rows.map Prod.fst = (ids.filter (last < ·)).take k)
    (hi : rows.getLast?.map Prod.fst = some i) :
    last < i ∧ i ∈ ids ∧ rows.map Prod.fst = ids.filter (idsBetween last i) := by
  rw [← List.getLast?_map, hrows] at hi
  have within := take_filter_eq sorted hi
  have mem := List.mem_of_getLast? hi
  rw [within, List.mem_filter, idsBetween_iff] at mem
  exact ⟨mem.2.1, mem.1, hrows.trans within⟩

theorem page_short (hrows : rows.map Prod.fst = (ids.filter (last < ·)).take k)
    (short : rows.length < k) : ids.filter (last < ·) = rows.map Prod.fst := by
  have length : (rows.map Prod.fst).length = rows.length := List.length_map _
  rw [hrows, List.length_take] at length
  rw [hrows, List.take_of_length_le (by omega)]

theorem page_exhausts (sorted : ids.Pairwise (· < ·))
    (hrows : rows.map Prod.fst = (ids.filter (last < ·)).take k) (short : rows.length < k)
    (hi : rows.getLast?.map Prod.fst = some i) : ∀ id ∈ ids, id ≤ i := by
  intro id hid
  obtain ⟨hlt, -, within⟩ := page_ids sorted hrows hi
  by_cases above : last < id
  · have mem : id ∈ ids.filter (last < ·) := List.mem_filter.2 ⟨hid, by simpa using above⟩
    rw [page_short hrows short, within, List.mem_filter, idsBetween_iff] at mem
    exact mem.2.2
  · exact UInt64.le_trans (UInt64.not_lt.1 above) (UInt64.le_of_lt hlt)

theorem page_empty (hrows : rows.map Prod.fst = (ids.filter (last < ·)).take k) (hk : 0 < k)
    (none : rows = []) : ∀ id ∈ ids, id ≤ last := by
  subst none
  have nothing := page_short hrows hk
  intro id hid
  refine UInt64.not_lt.1 fun above => ?_
  exact List.filter_eq_nil_iff.1 nothing id hid (by simpa using above)

end Rows

namespace Setup
open Routine Surroundings

variable {s : Setup} {f : Feed} {start last stop : UInt64} {first : Contents}
variable {left : List UInt64} {allowed : Event → Prop} {C : Contract (Reader × Option RecordTable)}
variable {E : Error → Reader × Option RecordTable → Prop} {w v : Reader × Option RecordTable}

theorem pageSize_pos (s : Setup) : 0 < s.pageSize.toNat := by
  have unfolded : s.pageSize = if s.config.pageSize ≤ 1 then 1 else s.config.pageSize := rfl
  have one : (1 : UInt32).toNat = 1 := rfl
  rw [unfolded]
  split
  · exact Nat.one_pos
  · rename_i h
    rw [UInt32.le_iff_toNat_le] at h
    omega

theorem short_iff {n : Nat} (h : n ≤ s.pageSize.toNat) :
    UInt64.ofNat n < s.pageSize.toUInt64 ↔ n < s.pageSize.toNat := by
  have small : s.pageSize.toNat < 4294967296 := s.pageSize.toNat_lt
  rw [UInt64.lt_iff_toNat_lt, UInt64.toNat_ofNat', UInt32.toNat_toUInt64, Nat.mod_eq_of_lt (by omega)]

/-- The last page was read from a table in which nothing was left above `last`. -/
def AtEnd (f : Feed) (start last : UInt64) (first : Contents) (known : Option RecordTable) : Prop :=
  ∃ t, known = some t ∧ first.2.Grows t ∧ Exhausted f start last t

def PageRead (s : Setup) (f : Feed) (start last : UInt64) (first : Contents)
    (page : FeedPage) (w : Reader × Option RecordTable) : Prop :=
  match page.lastId with
  | none => Level s f start last first w.1 ∧ page.rows < s.pageSize.toUInt64 ∧
      AtEnd f start last first w.2
  | some i => last < i ∧ Amid s f start last i [] [] first w.1 ∧ w.1.reading.full = some i ∧
      (page.rows < s.pageSize.toUInt64 → AtEnd f start i first w.2)

section Reading
variable {α : Type} {c : RecordCall} {rows : List (UInt64 × α)} {y : Except Error c.Answer}

theorem pageRead_none (h : Level s f start last first w.1) (hv : reading allowed w ⟨.records c, y⟩ v)
    (same : SameButPage w.1.reading v.1.reading) (hpage : v.1.reading.page = [])
    (hfull : v.1.reading.full = w.1.reading.full) (hlast : v.2 = some v.1.table)
    (hrows : rows.map Prod.fst = ((f.ids v.1.table).filter (last < ·)).take s.pageSize.toNat)
    (none : rows = []) (sent : UInt64) :
    PageRead s f start last first ⟨UInt64.ofNat rows.length, rows.getLast?.map Prod.fst, sent⟩ v := by
  obtain ⟨hints, hgrows, -⟩ := reading_records hv
  have still := h.still hints hgrows same hpage hfull
  have exhausted := page_empty hrows s.pageSize_pos none
  subst none
  exact ⟨still, (short_iff (Nat.zero_le _)).2 s.pageSize_pos, v.1.table, hlast, still.amid.grown,
    exhausted, still.amid.last_known⟩

theorem pageRead_some (kept : w.1.table.WellKept) (grown : first.2.Grows w.1.table)
    (hrows : rows.map Prod.fst = ((f.ids w.1.table).filter (last < ·)).take s.pageSize.toNat)
    (hi : rows.getLast?.map Prod.fst = some stop) (hlast : w.2 = some w.1.table)
    (h : Amid s f start last stop [] [] first v.1) (hfull : v.1.reading.full = some stop)
    (hsame : v.2 = w.2) (sent : UInt64) :
    PageRead s f start last first ⟨UInt64.ofNat rows.length, rows.getLast?.map Prod.fst, sent⟩ v := by
  have sorted := Feed.ids_sorted (f := f) kept
  obtain ⟨hlt, hmem, -⟩ := page_ids sorted hrows hi
  have length : rows.length ≤ s.pageSize.toNat := by
    rw [← List.length_map (f := Prod.fst), hrows]
    exact List.length_take_le _ _
  simp only [PageRead, hi]
  exact ⟨hlt, h, hfull, fun short => ⟨w.1.table, hsame.trans hlast, grown,
    page_exhausts sorted hrows ((short_iff length).1 short) hi, .inr (le_largest hmem)⟩⟩

end Reading

structure Looking (s : Setup) (start last stop : UInt64) (first : Contents)
    (known : Option RecordTable) (rest : List (UInt64 × Claim)) (w : Reader × Option RecordTable) :
    Prop where
  amid : Amid s .claims start last stop (rest.map Prod.fst) [] first w.1
  left : w.1.reading.left = rest
  full : if rest = [] then w.1.reading.full = some stop else w.1.reading.full.getD start = last
  last : ∀ row ∈ rest.getLast?, row.1 = stop
  rows : ∀ row ∈ rest, ∃ e ∈ w.1.table.claims, row = (e.id, e.claim)
  same : w.2 = known

section Look
variable {known : Option RecordTable} {id : UInt64} {c : Claim} {rest : List (UInt64 × Claim)}

theorem Looking.look (h : Looking s start last stop first known ((id, c) :: rest) w)
    {o : Option Deposit}
    (hv : reading allowed w ⟨.records (.deposit c.originNetwork c.depositCount), .ok o⟩ v)
    (unsent : List Notice) (hunsent : toTell unsent = (Feed.claimed? c o).toList) :
    Amid s .claims start last stop (rest.map Prod.fst) unsent first v.1 ∧
      ∀ u : Reader × Option RecordTable,
        Amid s .claims start last stop (rest.map Prod.fst) [] first u.1 →
        u.1.table = v.1.table → u.1.reading.left = v.1.reading.left →
        u.1.reading.full = v.1.reading.full → u.2 = v.2 →
        Looking s start last stop first known rest u := by
  obtain ⟨hints, hgrows, hreading, hanswer⟩ := reading_records hv
  have next : w.1.reading.next ⟨.records (.deposit c.originNetwork c.depositCount), .ok o⟩ =
      { w.1.reading with
        left := rest
        page := w.1.reading.page ++ [(id, Feed.claimed? c o)]
        full := if rest.isEmpty then some id else w.1.reading.full } := by
    simp only [Reading.next, h.left]
  rw [next] at hreading
  obtain ⟨more, hmore⟩ := hgrows.claims
  have grown : ∀ row ∈ (id, c) :: rest, ∃ e ∈ v.1.table.claims, row = (e.id, e.claim) := by
    intro row hrow
    obtain ⟨e, he, hrow⟩ := h.rows row hrow
    exact ⟨e, by rw [hmore]; exact List.mem_append_left _ he, hrow⟩
  have calls : Feed.claims.Calls first.2 v.1.table (id, Feed.claimed? c o) := by
    obtain ⟨e, he, hrow⟩ := grown (id, c) (by simp)
    obtain ⟨rfl, rfl⟩ := Prod.mk.inj hrow
    exact ⟨v.1.table, h.amid.grown.trans hgrows, .refl _, e, he, by rw [hanswer o rfl]⟩
  have same : SameButPage w.1.reading v.1.reading := by
    rw [hreading]
    exact ⟨rfl, rfl, rfl⟩
  refine ⟨h.amid.look hints hgrows same (by rw [hreading]) rfl calls hunsent, ?_⟩
  intro u hu htable hleft hfull hlast
  refine ⟨hu, by rw [hleft, hreading], ?_, fun row hrow => ?_, fun row hrow => ?_, ?_⟩
  · rw [hfull, hreading]
    have before := h.full
    rw [if_neg (List.cons_ne_nil _ _)] at before
    cases rest with
    | nil => exact congrArg some (h.last (id, c) (by simp))
    | cons row rest => exact before
  · refine h.last row ?_
    cases rest with
    | nil => cases hrow
    | cons r rest => rwa [List.getLast?_cons_cons]
  · rw [htable]
    exact grown row (List.mem_cons_of_mem _ hrow)
  · rw [hlast, ← h.same]
    exact hv.2

end Look

theorem toTell_created (rows : List (UInt64 × Deposit)) :
    toTell (rows.map fun r => { deposit := r.2, status := .created }) =
      (rows.map fun r => (r.1, Feed.created? r.2)).filterMap Prod.snd := by
  induction rows with
  | nil => rfl
  | cons r rows ih =>
    rw [toTell] at ih ⊢
    cases hr : r.2.isAsset <;> simp [Feed.created?, hr, ih]

theorem toTell_claimed (c : Claim) (d : Deposit) :
    toTell [{ deposit := d, status := .claimed, claim := some c }] =
      (Feed.claimed? c (some d)).toList := by
  cases hd : d.isAsset <;> simp [toTell, Feed.claimed?, Option.filter, hd]

section Steps
variable (failed : ∀ e err v, allowed e → e.error? = some err → E err v)
include failed

theorem offers_read {ns : List Notice} (h : Amid s f start last stop left ns first w.1) :
    (offerAll s.dispatcher ns).Ensures (reading allowed) (fun w => Followed s f start first w.1) C w
      fun _ v => Amid s f start last stop left [] first v.1 ∧
        v.1.reading.full = w.1.reading.full ∧ v.2 = w.2 := by
  refine (reading_shows failed).ensures_offerAll (J := fun rest v =>
    Amid s f start last stop left rest first v.1 ∧ v.1.reading.full = w.1.reading.full ∧ v.2 = w.2)
    ?_ ?_ h.followed ⟨h, rfl, rfl⟩
  · rintro n rest v - ⟨hv, hfull, hlast⟩ skipped
    exact ⟨hv.skip skipped, hfull, hlast⟩
  · rintro n rest v - ⟨hv, hfull, hlast⟩ wanted u hu
    obtain ⟨hints, htable, hreading, hsame⟩ := reading_launch hu
    have launched := hv.launch wanted hints htable hreading
    refine ⟨launched.followed, launched, ?_, hsame.trans hlast⟩
    rw [hreading]
    exact hfull

theorem depositPage_read (h : Level s .deposits start last first w.1) :
    (s.depositPage last).Ensures (reading allowed) (fun w => Followed s .deposits start first w.1) C E
      w (PageRead s .deposits start last first) := by
  refine Shows.ensures_depositPage fun x v hv => ?_
  obtain ⟨hints, hgrows, hreading, hanswer⟩ := reading_records hv
  cases x with
  | error err =>
    rw [Reading.next_error] at hreading
    exact ⟨h.amid.missed h.full hints hgrows hreading, (reading_shows failed).failed hv rfl⟩
  | ok rows =>
    have hlast : v.2 = some v.1.table := hv.2
    have answer : rows = ((v.1.table.deposits.filter fun e => last < e.id).take s.pageSize.toNat).map
      fun e => (e.id, e.deposit) := hanswer rows rfl
    have hrows : rows.map Prod.fst =
        ((Feed.deposits.ids v.1.table).filter (last < ·)).take s.pageSize.toNat := by
      rw [answer, List.map_map, Feed.ids, List.filter_map, ← List.map_take]
      rfl
    have calls : ∀ row ∈ v.1.reading.page, Feed.deposits.Calls first.2 v.1.table row := by
      rw [hreading]
      intro row hrow
      obtain ⟨r, hr, rfl⟩ := List.mem_map.1 hrow
      rw [answer] at hr
      obtain ⟨e, he, rfl⟩ := List.mem_map.1 hr
      exact ⟨e, (List.mem_filter.1 (List.mem_of_mem_take he)).1, rfl⟩
    have same : SameButPage w.1.reading v.1.reading := by
      rw [hreading]
      exact ⟨rfl, rfl, rfl⟩
    cases hi : rows.getLast?.map Prod.fst with
    | none =>
      have none : rows = [] := List.getLast?_eq_none_iff.1 (Option.map_eq_none_iff.1 hi)
      have ended := pageRead_none h hv same (by rw [hreading, none]; rfl) (by rw [hreading, none]; rfl)
        hlast hrows none 0
      rw [none] at ended ⊢
      exact ⟨ended.1.amid.followed, ended⟩
    | some i =>
      obtain ⟨hlt, hmem, within⟩ := page_ids (Feed.ids_sorted (hgrows.wellKept h.amid.kept)) hrows hi
      have amid : Amid s .deposits start last i []
          (rows.map fun r => { deposit := r.2, status := .created }) first v.1 := by
        refine h.read hints hgrows same (UInt64.le_of_lt hlt) (.inr (le_largest hmem)) ?_ calls ?_
        · rw [hreading, List.append_nil, ← within]
          exact List.map_map
        · rw [hreading]
          exact toTell_created rows
      refine ⟨amid.followed, (offers_read failed amid).mono ?_⟩
      rintro sent u ⟨hu, hfull, hsame⟩
      refine pageRead_some amid.kept amid.grown hrows hi hlast hu ?_ hsame sent
      rw [hfull, hreading]
      exact congrArg (Option.or · w.1.reading.full) hi

theorem looks_read {known : Option RecordTable} {rows : List (UInt64 × Claim)}
    (h : Looking s start last stop first known rows w) :
    (s.announceClaims rows).Ensures (reading allowed) (fun w => Followed s .claims start first w.1) C E
      w fun _ v => Looking s start last stop first known [] v := by
  have shows := reading_shows failed
  refine shows.ensures_announceClaims (J := Looking s start last stop first known) ?_ h.amid.followed h
  rintro id c rest v - hJ x u hu
  cases x with
  | error err =>
    obtain ⟨hints, hgrows, hreading, -⟩ := reading_records hu
    have before := hJ.full
    rw [if_neg (List.cons_ne_nil _ _)] at before
    rw [Reading.next_error] at hreading
    exact ⟨hJ.amid.missed before hints hgrows hreading, shows.failed hu rfl⟩
  | ok o =>
    cases o with
    | none =>
      obtain ⟨amid, looking⟩ := hJ.look hu [] rfl
      exact ⟨amid.followed, fun _ => looking u amid rfl rfl rfl rfl, fun d hd => nomatch hd⟩
    | some d =>
      obtain ⟨amid, looking⟩ := hJ.look hu [{ deposit := d, status := .claimed, claim := some c }]
        (toTell_claimed c d)
      refine ⟨amid.followed, fun h => (nomatch h), fun d' hd' => ?_⟩
      obtain rfl := Option.some.inj hd'
      refine ⟨fun skipped => looking u (amid.skip skipped) rfl rfl rfl rfl, fun wanted z hz => ?_⟩
      obtain ⟨hints, htable, hreading, hsame⟩ := reading_launch hz
      have launched := amid.launch wanted hints htable hreading
      refine ⟨launched.followed, looking z launched htable ?_ ?_ hsame⟩
      · rw [hreading]
      · rw [hreading]

theorem claimPage_read (h : Level s .claims start last first w.1) :
    (s.claimPage last).Ensures (reading allowed) (fun w => Followed s .claims start first w.1) C E
      w (PageRead s .claims start last first) := by
  refine Shows.ensures_claimPage fun x v hv => ?_
  obtain ⟨hints, hgrows, hreading, hanswer⟩ := reading_records hv
  cases x with
  | error err =>
    rw [Reading.next_error] at hreading
    exact ⟨h.amid.missed h.full hints hgrows hreading, (reading_shows failed).failed hv rfl⟩
  | ok rows =>
    have hlast : v.2 = some v.1.table := hv.2
    have answer : rows = ((v.1.table.claims.filter fun e => last < e.id).take s.pageSize.toNat).map
      fun e => (e.id, e.claim) := hanswer rows rfl
    have hrows : rows.map Prod.fst =
        ((Feed.claims.ids v.1.table).filter (last < ·)).take s.pageSize.toNat := by
      rw [answer, List.map_map, Feed.ids, List.filter_map, ← List.map_take]
      rfl
    have same : SameButPage w.1.reading v.1.reading := by
      rw [hreading]
      exact ⟨rfl, rfl, rfl⟩
    have hpage : v.1.reading.page = [] := by rw [hreading]; rfl
    have hfull : v.1.reading.full = w.1.reading.full := by rw [hreading]; rfl
    cases hi : rows.getLast?.map Prod.fst with
    | none =>
      have none : rows = [] := List.getLast?_eq_none_iff.1 (Option.map_eq_none_iff.1 hi)
      have ended := pageRead_none h hv same hpage hfull hlast hrows none 0
      rw [none] at ended ⊢
      exact ⟨ended.1.amid.followed, ended⟩
    | some i =>
      obtain ⟨hlt, hmem, within⟩ := page_ids (Feed.ids_sorted (hgrows.wellKept h.amid.kept)) hrows hi
      have amid : Amid s .claims start last i (rows.map Prod.fst) [] first v.1 := by
        refine h.read hints hgrows same (UInt64.le_of_lt hlt) (.inr (le_largest hmem)) ?_ ?_ ?_
        · rw [hpage, within]
          rfl
        · rw [hpage]
          exact List.forall_mem_nil _
        · rw [hpage]
          rfl
      have looking : Looking s start last i first v.2 rows v := by
        refine ⟨amid, by rw [hreading]; rfl, ?_, fun row hrow => ?_, fun row hrow => ?_, rfl⟩
        · have some : rows ≠ [] := by
            intro none
            rw [none] at hi
            cases hi
          rw [if_neg some, hfull]
          exact h.full
        · rw [Option.mem_def.1 hrow] at hi
          exact Option.some.inj hi
        · rw [answer] at hrow
          obtain ⟨e, he, rfl⟩ := List.mem_map.1 hrow
          exact ⟨e, (List.mem_filter.1 (List.mem_of_mem_take he)).1, rfl⟩
      refine ⟨amid.followed, (looks_read failed looking).mono fun sent u hu => ?_⟩
      exact pageRead_some amid.kept amid.grown hrows hi hlast hu.amid hu.full hu.same sent

theorem feedPage_read (h : Level s f start last first w.1) :
    (s.feedPage f last).Ensures (reading allowed) (fun w => Followed s f start first w.1) C E w
      (PageRead s f start last first) := by
  cases f with
  | deposits => exact depositPage_read failed h
  | claims => exact claimPage_read failed h

end Steps

/-- A tick that does not fail ends between two pages, with nothing left to read. -/
def Finished (s : Setup) (f : Feed) (start : UInt64) (first : Contents)
    (w : Reader × Option RecordTable) : Prop :=
  ∃ last, Level s f start last first w.1 ∧ AtEnd f start last first w.2

def following (s : Setup) (f : Feed) (start : UInt64) (first : Contents)
    (E : Error → Reader × Option RecordTable → Prop) : Contract (Reader × Option RecordTable) where
  needs
    | .feed s' f' last _, w => s' = s ∧ f' = f ∧ Level s f start last first w.1
    | _, _ => False
  gives
    | .feed .., _, r, v => Ends E (fun _ v => Finished s f start first v) r v
    | _, _, _, _ => False

section Rounds
variable (failed : ∀ e err v, allowed e → e.error? = some err → E err v)
include failed

theorem feedRound_read {dispatched : UInt64} (h : Level s f start last first w.1) :
    (s.feedRound f last dispatched).Ensures (reading allowed)
      (fun w => Followed s f start first w.1) (following s f start first E) E w fun _ v =>
        Finished s f start first v := by
  have shows := reading_shows failed
  have goes : ∀ {page : FeedPage} {last : UInt64} {u : Reader × Option RecordTable},
      Level s f start last first u.1 →
      (page.rows < s.pageSize.toUInt64 → AtEnd f start last first u.2) →
      Shows.GoesOn (reading allowed) (fun w => Followed s f start first w.1)
        (following s f start first E) E s f page dispatched last u
        fun _ v => Finished s f start first v := by
    intro page last u hu exhausted
    unfold Shows.GoesOn
    split
    · exact ⟨last, hu, exhausted ‹_›⟩
    · refine ⟨⟨rfl, rfl, hu⟩, fun r z _ hz => ?_⟩
      cases r with
      | ok res => exact hz
      | error err => exact hz
  refine shows.ensures_feedRound h.amid.followed ((feedPage_read failed h).mono ?_)
  rintro ⟨rows, lastId, sent⟩ u hu
  cases lastId with
  | none => exact goes hu.1 fun _ => hu.2.2
  | some i =>
    obtain ⟨hlt, amid, hfull, exhausted⟩ := hu
    refine ⟨fun hle => ?_, fun _ z hz => ?_⟩
    · have below : i ≤ (u.1.ints (s.key f.watermark)).getD 0 := hle
      rw [amid.mark] at below
      exact absurd below (UInt64.not_le.2 hlt)
    · obtain ⟨hints, htable, hreading, hsame⟩ := reading_write hz
      have written := amid.write hints htable hreading
      have level : Level s f start i first z.1 := by
        refine ⟨written, ?_⟩
        rw [hreading]
        exact congrArg (Option.getD · start) hfull
      exact ⟨written.followed, goes level (hsame ▸ exhausted)⟩

theorem following_kept :
    (following s f start first E).Kept (reading allowed) fun w => Followed s f start first w.1 := by
  rintro (_ | ⟨s', f', last, dispatched⟩ | _ | _) w - hn
  · exact hn.elim
  · obtain ⟨rfl, rfl, level⟩ := hn
    exact feedRound_read failed level
  · exact hn.elim
  · exact hn.elim

end Rounds
end Setup
end BridgeNotifier
