import BridgeNotifier.Proofs.Announcements
set_option autoImplicit false

/-!
# Readings of the feeds

The rows a tick of a feed went through, as somebody sees who reads its events: the rows of the page
it is at, and the rows of the pages that a write of the watermark has settled.
-/
namespace BridgeNotifier
open RecordTable

theorem max_le_word_iff {a b n : UInt64} : max a b ≤ n ↔ a ≤ n ∧ b ≤ n := by
  have unfolded : max a b = if a ≤ b then b else a := rfl
  rw [unfolded]
  simp only [UInt64.le_iff_toNat_le]
  split <;> omega

theorem max_lt_word_iff {a b n : UInt64} : max a b < n ↔ a < n ∧ b < n := by
  have unfolded : max a b = if a ≤ b then b else a := rfl
  rw [unfolded]
  simp only [UInt64.lt_iff_toNat_lt, UInt64.le_iff_toNat_le]
  split <;> omega

theorem foldl_max_le_iff {ids : List UInt64} {a n : UInt64} :
    ids.foldl max a ≤ n ↔ a ≤ n ∧ ∀ id ∈ ids, id ≤ n := by
  induction ids generalizing a with
  | nil => simp
  | cons id ids ih => rw [List.foldl_cons, ih, max_le_word_iff, and_assoc, List.forall_mem_cons]

theorem foldl_max_lt_iff {ids : List UInt64} {a n : UInt64} :
    ids.foldl max a < n ↔ a < n ∧ ∀ id ∈ ids, id < n := by
  induction ids generalizing a with
  | nil => simp
  | cons id ids ih => rw [List.foldl_cons, ih, max_lt_word_iff, and_assoc, List.forall_mem_cons]

theorem zero_le_word (n : UInt64) : 0 ≤ n :=
  UInt64.le_iff_toNat_le.2 (Nat.zero_le _)

theorem largest_le_iff {ids : List UInt64} {n : UInt64} : largest ids ≤ n ↔ ∀ id ∈ ids, id ≤ n :=
  foldl_max_le_iff.trans (and_iff_right (zero_le_word n))

theorem le_largest {ids : List UInt64} {id : UInt64} (h : id ∈ ids) : id ≤ largest ids :=
  largest_le_iff.1 (UInt64.le_refl _) id h

theorem largest_lt {ids : List UInt64} {n : UInt64} (hn : 0 < n) (h : ∀ id ∈ ids, id < n) :
    largest ids < n :=
  foldl_max_lt_iff.2 ⟨hn, h⟩

section Between
variable {ids : List UInt64} {a b c : UInt64}

theorem idsBetween_iff {p : UInt64} : idsBetween a b p = true ↔ a < p ∧ p ≤ b := by
  simp [idsBetween]

theorem filter_idsBetween_self (ids : List UInt64) (a : UInt64) : ids.filter (idsBetween a a) = [] := by
  refine List.filter_eq_nil_iff.2 fun p _ hp => ?_
  obtain ⟨hlt, hle⟩ := idsBetween_iff.1 hp
  exact UInt64.not_le.2 hlt hle

theorem filter_split (sorted : ids.Pairwise (· < ·)) (q : UInt64 → Bool) (b : UInt64) :
    ids.filter q = (ids.filter fun p => q p && p ≤ b) ++ ids.filter fun p => q p && b < p := by
  induction ids with
  | nil => rfl
  | cons id ids ih =>
    obtain ⟨above, sorted⟩ := List.pairwise_cons.1 sorted
    have ih := ih sorted
    by_cases hle : id ≤ b
    · have hlt : ¬ b < id := UInt64.not_lt.2 hle
      cases hq : q id <;> simp [hq, hle, hlt, ih]
    · have hlt : b < id := UInt64.not_le.1 hle
      have none : (ids.filter fun p => q p && p ≤ b) = [] := by
        refine List.filter_eq_nil_iff.2 fun p hp h => ?_
        simp only [Bool.and_eq_true, decide_eq_true_eq] at h
        exact hle (UInt64.le_trans (UInt64.le_of_lt (above p hp)) h.2)
      rw [none, List.nil_append] at ih
      cases hq : q id <;> simp [hq, hle, hlt, none, ih]

theorem filter_idsBetween_append (sorted : ids.Pairwise (· < ·)) (hab : a ≤ b) (hbc : b ≤ c) :
    ids.filter (idsBetween a b) ++ ids.filter (idsBetween b c) = ids.filter (idsBetween a c) := by
  rw [filter_split sorted (idsBetween a c) b]
  congr 1 <;> refine List.filter_congr fun p _ => Bool.eq_iff_iff.2 ?_ <;>
    simp only [Bool.and_eq_true, idsBetween_iff, decide_eq_true_eq] <;>
    simp only [UInt64.lt_iff_toNat_lt, UInt64.le_iff_toNat_le] at hab hbc ⊢ <;> omega

theorem filter_idsBetween_above (sorted : ids.Pairwise (· < ·)) (a b : UInt64) :
    ids.filter (idsBetween a b) <+: ids.filter (a < ·) := by
  refine ⟨_, (filter_split sorted (a < ·) b).symm⟩

theorem take_filter_eq (sorted : ids.Pairwise (· < ·)) {k : Nat}
    (h : ((ids.filter (a < ·)).take k).getLast? = some b) :
    (ids.filter (a < ·)).take k = ids.filter (idsBetween a b) := by
  have above : (ids.filter (a < ·)).Pairwise (· < ·) := sorted.filter _
  have inner : ids.filter (idsBetween a b) = (ids.filter (a < ·)).filter (· ≤ b) := by
    rw [List.filter_filter]
    refine List.filter_congr fun p _ => ?_
    rw [idsBetween, Bool.and_comm]
  rw [inner]
  generalize ids.filter (a < ·) = found at h above ⊢
  obtain ⟨front, hfront⟩ := List.getLast?_eq_some_iff.1 h
  obtain ⟨rest, whole⟩ : ∃ rest, found = (front ++ [b]) ++ rest :=
    ⟨found.drop k, by rw [← hfront, List.take_append_drop]⟩
  rw [hfront, whole]
  rw [whole] at above
  obtain ⟨page, -, beyond⟩ := List.pairwise_append.1 above
  have upTo : ∀ p ∈ front ++ [b], p ≤ b := by
    intro p hp
    obtain hp | hp := List.mem_append.1 hp
    · exact UInt64.le_of_lt ((List.pairwise_append.1 page).2.2 p hp b (by simp))
    · exact UInt64.le_of_eq (List.mem_singleton.1 hp)
  have after : ∀ p ∈ rest, ¬ p ≤ b := fun p hp => UInt64.not_le.2 (beyond b (by simp) p hp)
  rw [List.filter_append, List.filter_eq_self.2 (by simpa using upTo),
    List.filter_eq_nil_iff.2 (by simpa using after), List.append_nil]

theorem filter_idsBetween_of_grown {more : List UInt64} (sorted : (ids ++ more).Pairwise (· < ·))
    (hb : b = a ∨ b ≤ largest ids) :
    (ids ++ more).filter (idsBetween a b) = ids.filter (idsBetween a b) := by
  rw [List.filter_append, List.append_right_eq_self]
  obtain rfl | hb := hb
  · exact filter_idsBetween_self more b
  · refine List.filter_eq_nil_iff.2 fun p hp h => ?_
    obtain ⟨hap, hpb⟩ := idsBetween_iff.1 h
    have positive : 0 < p := UInt64.lt_of_le_of_lt (zero_le_word a) hap
    have beyond : largest ids < p :=
      largest_lt positive fun id hid => (List.pairwise_append.1 sorted).2.2 id hid p hp
    exact UInt64.not_le.2 beyond (UInt64.le_trans hpb hb)

end Between

namespace Feed

def ids : Feed → RecordTable → List UInt64
  | .deposits, t => t.deposits.map DepositEntry.id
  | .claims, t => t.claims.map ClaimEntry.id

def created? (d : Deposit) : Option Notice :=
  if d.isAsset then some { deposit := d, status := .created } else none

def claimed? (c : Claim) (deposit : Option Deposit) : Option Notice :=
  (deposit.filter Deposit.isAsset).map fun d => { deposit := d, status := .claimed, claim := some c }

/-- The row with an id calls for a notice or for none: in the table, or, for a claim, in a table that
had the claim when its deposit was looked up, at some time after `since`. -/
def Calls : Feed → RecordTable → RecordTable → UInt64 × Option Notice → Prop
  | .deposits, _, t, row => ∃ e ∈ t.deposits, row = (e.id, created? e.deposit)
  | .claims, since, t, row => ∃ u : RecordTable, since.Grows u ∧ u.Grows t ∧ ∃ e ∈ u.claims,
      row = (e.id, claimed? e.claim (u.answer (.deposit e.claim.originNetwork e.claim.depositCount)))

variable {f : Feed} {t u : RecordTable}

theorem ids_sorted (h : t.WellKept) : (f.ids t).Pairwise (· < ·) := by
  cases f with
  | deposits => exact List.pairwise_map.2 h.depositIds
  | claims => exact List.pairwise_map.2 h.claimIds

theorem ids_grows (h : t.Grows u) : ∃ more, f.ids u = f.ids t ++ more := by
  cases f with
  | deposits =>
    obtain ⟨more, hmore⟩ := h.deposits
    exact ⟨more.map DepositEntry.id, by rw [ids, hmore, List.map_append]; rfl⟩
  | claims =>
    obtain ⟨more, hmore⟩ := h.claims
    exact ⟨more.map ClaimEntry.id, by rw [ids, hmore, List.map_append]; rfl⟩

theorem largest_grows (h : t.Grows u) : largest (f.ids t) ≤ largest (f.ids u) := by
  obtain ⟨more, hmore⟩ := ids_grows (f := f) h
  rw [hmore]
  exact largest_le_iff.2 fun id hid => le_largest (List.mem_append_left _ hid)

theorem between_grows (h : t.Grows u) (kept : t.WellKept) {a b : UInt64}
    (hb : b = a ∨ b ≤ largest (f.ids t)) :
    (f.ids u).filter (idsBetween a b) = (f.ids t).filter (idsBetween a b) := by
  have sorted := ids_sorted (f := f) (h.wellKept kept)
  obtain ⟨more, hmore⟩ := ids_grows (f := f) h
  rw [hmore] at sorted ⊢
  exact filter_idsBetween_of_grown sorted hb

theorem Calls.grows {row : UInt64 × Option Notice} {since : RecordTable} (hc : f.Calls since t row)
    (h : t.Grows u) : f.Calls since u row := by
  cases f with
  | deposits =>
    obtain ⟨more, hmore⟩ := h.deposits
    obtain ⟨e, he, hrow⟩ := hc
    exact ⟨e, by rw [hmore]; exact List.mem_append_left _ he, hrow⟩
  | claims =>
    obtain ⟨v, hsince, hv, hrow⟩ := hc
    exact ⟨v, hsince, hv.trans h, hrow⟩

theorem Calls.since {row : UInt64 × Option Notice} {older since : RecordTable}
    (hc : f.Calls since t row) (h : older.Grows since) : f.Calls older t row := by
  cases f with
  | deposits => exact hc
  | claims =>
    obtain ⟨v, hsince, hrow⟩ := hc
    exact ⟨v, h.trans hsince, hrow⟩

end Feed

/-- The claims of a page still to be looked up, the rows of the page gone through, those of the
pages before it, each with the notice it calls for, and the notices that were sent. Then the last id
of the last page that was gone through to its end, and whether a question was left unanswered. -/
structure Reading where
  left : List (UInt64 × Claim)
  page : List (UInt64 × Option Notice)
  done : List (UInt64 × Option Notice)
  sent : List Notice
  full : Option UInt64
  missed : Bool

namespace Reading

def start : Reading := ⟨[], [], [], [], none, false⟩

def next (o : Reading) : Event → Reading
  | ⟨.records (.depositsAfter _ _), .ok rows⟩ =>
    { o with
      left := []
      page := rows.map fun r => (r.1, Feed.created? r.2)
      full := (rows.getLast?.map Prod.fst).or o.full }
  | ⟨.records (.claimsAfter _ _), .ok rows⟩ => { o with left := rows, page := [] }
  | ⟨.records (.deposit _ _), .ok deposit⟩ =>
    match o.left with
    | [] => o
    | (id, c) :: rest =>
      { o with
        left := rest
        page := o.page ++ [(id, Feed.claimed? c deposit)]
        full := if rest.isEmpty then some id else o.full }
  | ⟨.records _, .error _⟩ => { o with missed := true }
  | ⟨.launch _ n, _⟩ => { o with sent := o.sent ++ [n] }
  | ⟨.store (.setInt _ _), .ok _⟩ => { o with page := [], done := o.done ++ o.page }
  | _ => o

def seen (o : Reading) : List (UInt64 × Option Notice) :=
  o.done ++ o.page

theorem next_of_quiet (o : Reading) {e : Event} (h : e.isQuiet = true) : o.next e = o := by
  obtain ⟨r, x⟩ := e
  cases r with
  | store c =>
    cases c with
    | setInt k v =>
      cases x with
      | ok u => cases h
      | error err => rfl
    | _ => rfl
  | records c => cases h
  | launch d n => cases h
  | _ => rfl

theorem next_error (o : Reading) {c : RecordCall} (err : Error) :
    o.next ⟨.records c, .error err⟩ = { o with missed := true } := by
  cases c <;> rfl

end Reading

def Tick.reading (t : Tick) : Reading :=
  t.events.foldl Reading.next .start

abbrev Contents := (String → Option UInt64) × RecordTable

abbrev Reader := Contents × Reading

namespace Reader

variable (w : Reader)

def ints : String → Option UInt64 := w.1.1
def table : RecordTable := w.1.2
def reading : Reading := w.2

end Reader

def Event.isPage : Event → Bool
  | ⟨.records (.depositsAfter _ _), .ok _⟩ | ⟨.records (.claimsAfter _ _), .ok _⟩ => true
  | _ => false

/-- The table as it was when the last page was read, or what was noted before. -/
def lastTable (o : Option RecordTable) (e : Event) (w : Reader) : Option RecordTable :=
  if e.isPage then some w.table else o

namespace Surroundings

abbrev reading (allowed : Event → Prop) : Surroundings (Reader × Option RecordTable) :=
  ((numbers.tabled.only allowed).noted Reading.next).witnessed lastTable

variable {allowed : Event → Prop} {w v : Reader × Option RecordTable}
variable {E : Error → Reader × Option RecordTable → Prop}

theorem reading_shows (failed : ∀ e err v, allowed e → e.error? = some err → E err v) :
    (reading allowed).Shows (fun w => w.1.ints) E where
  quiet := by
    rintro w ⟨r, x⟩ v ⟨⟨⟨-, h⟩, hv⟩, hl⟩ hq
    have hints := eq_of_numbers h.1 hq
    have htable : v.1.1.2 = w.1.1.2 := tabled_eq (fun c hc => by subst hc; cases hq) h
    have hpage : Event.isPage ⟨r, x⟩ = false := by
      cases r with
      | records c => cases hq
      | _ => rfl
    refine Prod.ext (Prod.ext (Prod.ext hints htable) (hv.trans (w.1.2.next_of_quiet hq))) ?_
    rw [hl, lastTable, hpage]
    rfl
  read h := h.1.1.2.1.1
  write h := h.1.1.2.1
  records h := h.1.1.2.1
  launch h := h.1.1.2.1
  depth h := h.1.1.2.1
  failed h he := failed _ _ _ h.1.1.1 he

theorem reading_records {c : RecordCall} {x : Except Error c.Answer}
    (h : reading allowed w ⟨.records c, x⟩ v) : v.1.ints = w.1.ints ∧ w.1.table.Grows v.1.table ∧
      v.1.reading = w.1.reading.next ⟨.records c, x⟩ ∧ ∀ a, x = .ok a → a = v.1.table.answer c :=
  ⟨h.1.1.2.1, h.1.1.2.2.1, h.1.2, h.1.1.2.2.2⟩

theorem reading_launch {d : Dispatcher} {n : Notice} (h : reading allowed w ⟨.launch d n, ()⟩ v) :
    v.1.ints = w.1.ints ∧ v.1.table = w.1.table ∧
      v.1.reading = { w.1.reading with sent := w.1.reading.sent ++ [n] } ∧ v.2 = w.2 :=
  ⟨h.1.1.2.1, h.1.1.2.2, h.1.2, h.2⟩

theorem reading_write {key : String} {value : UInt64}
    (h : reading allowed w ⟨.store (.setInt key value), .ok ()⟩ v) :
    v.1.ints = Function.update w.1.ints key (some value) ∧ v.1.table = w.1.table ∧
      v.1.reading = { w.1.reading with page := [], done := w.1.reading.seen } ∧ v.2 = w.2 :=
  ⟨h.1.1.2.1, h.1.1.2.2, h.1.2, h.2⟩

end Surroundings
end BridgeNotifier
