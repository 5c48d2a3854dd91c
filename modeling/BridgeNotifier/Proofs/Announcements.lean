import BridgeNotifier.Proofs.HandOvers
set_option autoImplicit false

namespace BridgeNotifier

def Scan.found (s : Scan) (table : RecordTable) : List DepositEntry :=
  table.deposits.filter (RecordTable.matures s.network s.range)

def Scan.about (s : Scan) (x : Subject) (es : List DepositEntry) : Nat :=
  es.countP fun e => Subject.deposit e.deposit s.status = x

namespace Scan

variable {s : Scan} {x : Subject} {table : RecordTable} {t : Task}

theorem about_le_tally (entries : ∀ table : RecordTable, t.entries table =
    table.deposits.map fun e => (e.deposit.block, .deposit e.deposit s.status)) :
    s.about x (s.found table) ≤ tally (t.entries table) x fun p => p ∈ s.range := by
  rw [entries, tally, List.countP_map, about, found, List.countP_filter]
  refine List.countP_mono_left fun e _ he => ?_
  simp only [RecordTable.matures, Bool.and_eq_true, decide_eq_true_eq] at he
  simp only [Function.comp_apply, Bool.and_eq_true, decide_eq_true_eq]
  exact ⟨he.1, he.2.1.1.2, he.2.1.2⟩

theorem found_grows {u : RecordTable} (h : table.Grows u) :
    ∃ more, s.found u = s.found table ++ more := by
  obtain ⟨more, hmore⟩ := h.deposits
  refine ⟨more.filter (RecordTable.matures s.network s.range), ?_⟩
  rw [found, hmore, List.filter_append]
  rfl

theorem found_length_le (h : table.WellKept) :
    (s.found table).length ≤ 0x8000000000000000 :=
  Nat.le_trans (List.length_filter_le _ _) h.length_le

def rowsAt (s : Scan) (table : RecordTable) (offset : Nat) : List Deposit :=
  (((s.found table).drop offset).take s.pageSize.toNat).map DepositEntry.deposit

theorem length_rowsAt (s : Scan) (table : RecordTable) (offset : Nat) :
    (s.rowsAt table offset).length =
      min s.pageSize.toNat ((s.found table).length - offset) := by
  rw [rowsAt, List.length_map, List.length_take, List.length_drop]

theorem about_rowsAt (offset : Nat) :
    s.about x ((s.found table).take offset) +
        (s.rowsAt table offset).countP (fun d => Subject.deposit d s.status = x) =
      s.about x ((s.found table).take (offset + (s.rowsAt table offset).length)) := by
  have htake : ((s.found table).drop offset).take s.pageSize.toNat =
      ((s.found table).drop offset).take (s.rowsAt table offset).length := by
    rw [length_rowsAt, List.take_eq_take_iff, List.length_drop]
    omega
  rw [List.take_add, about, about, List.countP_append, ← htake, rowsAt, List.countP_map]
  rfl

theorem toNat_next (h : table.WellKept) {offset : UInt64}
    (hle : offset.toNat ≤ (s.found table).length) :
    (offset + UInt64.ofNat (s.rowsAt table offset.toNat).length).toNat =
      offset.toNat + (s.rowsAt table offset.toNat).length := by
  -- the offset stays below the number of rows, which ids of 63 bits bound
  have hfound := s.found_length_le h
  have hlength := s.length_rowsAt table offset.toNat
  have hword : (UInt64.ofNat (s.rowsAt table offset.toNat).length).toNat =
      (s.rowsAt table offset.toNat).length := by
    rw [UInt64.toNat_ofNat', Nat.mod_eq_of_lt (by omega)]
  rw [UInt64.toNat_add, hword, Nat.mod_eq_of_lt (by omega)]

end Scan

/-- A round of a scan begins where its last page ended: what was handed over is owed to the rows
before the offset. -/
structure Paged (s : Setup) (depth : UInt64) (t : Task) (x : Subject) (sc : Scan) (offset : UInt64)
    (w : Ledger) : Prop where
  entries : ∀ table : RecordTable, t.entries table =
    table.deposits.map fun e => (e.deposit.block, .deposit e.deposit sc.status)
  fresh : ∀ p, Storable p → p ∈ sc.range → s.passed depth w.ints t p = false
  offset_le : offset.toNat ≤ (sc.found w.table).length
  read : w.pending.count x ≤ sc.about x ((sc.found w.table).take offset.toNat)

namespace Paged
open Surroundings

variable {s : Setup} {depth : UInt64} {t : Task} {x : Subject} {allowed : Event → Prop}
variable {sc : Scan} {offset : UInt64} {w v : Ledger}

theorem of_records {c : RecordCall} {y : Except Error c.Answer}
    (h : Paged s depth t x sc offset w) (hv : ledger allowed w ⟨.records c, y⟩ v) :
    Paged s depth t x sc offset v := by
  obtain ⟨hints, hgrows, -, hpending, -⟩ := ledger_records hv
  obtain ⟨more, hmore⟩ := sc.found_grows hgrows
  refine ⟨h.entries, by rw [hints]; exact h.fresh, ?_, ?_⟩
  · rw [hmore, List.length_append]
    exact Nat.le_trans h.offset_le (Nat.le_add_right _ _)
  · rw [hmore, hpending, List.take_append_of_le_length h.offset_le]
    exact h.read

theorem announcing (h : Paged s depth t x sc offset v) :
    Announcing s depth t x (fun p => p ∈ sc.range)
      (sc.about x ((sc.found v.table).take (offset.toNat + (sc.rowsAt v.table offset.toNat).length)))
      v.ints (((sc.rowsAt v.table offset.toNat).map fun d =>
        ({ deposit := d, status := sc.status } : Notice)).countP fun n => n.subject = x) v := by
  refine ⟨rfl, ⟨?_, fun p hp hr => h.fresh p hp (of_decide_eq_true hr)⟩, ?_⟩
  · exact Nat.le_trans (List.take_sublist _ _).countP_le (Scan.about_le_tally h.entries)
  · rw [List.countP_map, ← Scan.about_rowsAt]
    exact Nat.add_le_add_right h.read _

end Paged

namespace Contract
open Routine Surroundings

variable {s : Setup} {depth : UInt64} {t : Task} {x : Subject} {base : Nat}

def handing (s : Setup) (depth : UInt64) (t : Task) (x : Subject) : Contract Ledger where
  needs
    | .scan sc offset _, w => Paged s depth t x sc offset w
    | .feed s' f last _, w =>
      s' = s ∧ t = .feed f ∧ w.ints (s.key f.watermark) = some last ∧ w.pending = []
    | _, _ => False
  gives
    | .scan sc _ _, w, r, v => Ends (fun _ _ => True) (fun _ v => v.ints = w.ints ∧
        Owing s depth t x (fun p => p ∈ sc.range) (v.pending.count x) v) r v
    | .feed .., _, r, v => Ends (fun _ _ => True) (fun _ v => v.pending = []) r v
    | _, _, _, _ => False

variable {allowed : Event → Prop}

theorem announce {C : Contract Ledger} {a : UInt64 → Bool} {total : Nat}
    {f : String → Option UInt64} {d : Dispatcher} {ns : List Notice} {v : Ledger}
    (hI : Accounted s depth t x base v)
    (h : Announcing s depth t x a total f (ns.countP fun n => n.subject = x) v) :
    (offerAll d ns).Ensures (ledger allowed) (Accounted s depth t x base) C v fun _ u =>
      Announcing s depth t x a total f 0 u ∧ u.table = v.table := by
  have hS : (ledger allowed).Shows Ledger.ints fun _ _ => True := ledger_shows
  refine hS.ensures_offerAll (J := fun rest u =>
    Announcing s depth t x a total f (rest.countP fun n => n.subject = x) u ∧ u.table = v.table)
    ?_ ?_ hI ⟨h, rfl⟩
  · rintro n rest u - ⟨hu, htable⟩ -
    refine ⟨hu.skip ?_, htable⟩
    rw [List.countP_cons]
    exact Nat.le_add_right _ _
  · rintro n rest u hI ⟨hu, htable⟩ - z hz
    have hle : (if n.subject = x then 1 else 0) + (rest.countP fun n => n.subject = x) ≤
        (n :: rest).countP fun n => n.subject = x := by
      rw [List.countP_cons]
      simp only [decide_eq_true_eq]
      omega
    obtain ⟨hIz, hz'⟩ := hu.of_launch hI hz hle
    exact ⟨hIz, hz', (ledger_launch hz).2.1.trans htable⟩

theorem handing_page {sc : Scan} {offset : UInt64} {summary : ScanSummary} {w : Ledger}
    (hI : Accounted s depth t x base w) (h : Paged s depth t x sc offset w) :
    (sc.page offset summary).Ensures (ledger allowed) (Accounted s depth t x base)
      (handing s depth t x) (fun _ _ => True) w fun _ v => v.ints = w.ints ∧
        Owing s depth t x (fun p => p ∈ sc.range) (v.pending.count x) v := by
  refine ledger_shows.ensures_page fun y v hv => ⟨hI.of_records hv, ?_⟩
  have hIv := hI.of_records hv
  have paged := h.of_records hv
  obtain ⟨hints, -, -, -, hanswer⟩ := ledger_records hv
  cases y with
  | error e => trivial
  | ok rows =>
    obtain rfl : rows = sc.rowsAt v.table offset.toNat := hanswer rows rfl
    refine (announce hIv paged.announcing).mono fun sent u ⟨hu, htable⟩ => ?_
    have huints : u.ints = w.ints := hu.ints.trans hints
    have owing : Owing s depth t x (fun p => p ∈ sc.range) (u.pending.count x) u :=
      ⟨Nat.le_trans hu.count hu.owing.count_le, hu.owing.fresh⟩
    dsimp only
    split
    · exact ⟨huints, owing⟩
    · have hnext := Scan.toNat_next hIv.kept paged.offset_le
      have hlength := sc.length_rowsAt v.table offset.toNat
      have hle := paged.offset_le
      refine ⟨⟨h.entries, by rw [huints]; exact h.fresh, ?_, ?_⟩, fun r z _ hz => ?_⟩
      · rw [hnext, htable]
        omega
      · rw [hnext, htable]
        exact hu.count
      · cases r with
        | error e => trivial
        | ok sm => exact ⟨hz.1.trans huints, hz.2⟩

end Contract

def idsBetween (last id : UInt64) (p : UInt64) : Bool :=
  last < p && p ≤ id

theorem feedPage_countP_le {ε : Type} (id : ε → UInt64) (subject : ε → Subject) {es : List ε}
    (sorted : es.Pairwise fun d e => id d < id e) (x : Subject) {last i : UInt64} {limit : Nat}
    (h : ((es.filter fun e => last < id e).take limit).getLast?.map id = some i) :
    last < i ∧ ((es.filter fun e => last < id e).take limit).countP (fun e => subject e = x) ≤
      tally (es.map fun e => (id e, subject e)) x (idsBetween last i) := by
  have sub : ((es.filter fun e => last < id e).take limit).Sublist es :=
    (List.take_sublist _ _).trans List.filter_sublist
  have above : ∀ e ∈ (es.filter fun e => last < id e).take limit, last < id e := fun e he =>
    of_decide_eq_true (List.mem_filter.1 (List.mem_of_mem_take he)).2
  have ordered := sorted.sublist sub
  generalize (es.filter fun e => last < id e).take limit = page at h sub above ordered ⊢
  obtain ⟨e, he, rfl⟩ := Option.map_eq_some_iff.1 h
  obtain ⟨front, rfl⟩ := List.getLast?_eq_some_iff.1 he
  have upTo : ∀ d ∈ front ++ [e], id d ≤ id e := by
    intro d hd
    obtain hd | hd := List.mem_append.1 hd
    · exact UInt64.le_of_lt ((List.pairwise_append.1 ordered).2.2 d hd e (by simp))
    · obtain rfl := List.mem_singleton.1 hd
      exact UInt64.le_refl _
  refine ⟨above e (by simp), ?_⟩
  rw [tally, List.countP_map]
  refine Nat.le_trans (List.countP_mono_left fun d hd hx => ?_) sub.countP_le
  simp only [Function.comp_apply, idsBetween, Bool.and_eq_true, decide_eq_true_eq] at hx ⊢
  exact ⟨hx, above d hd, upTo d hd⟩

namespace Contract
open Routine Surroundings

variable {s : Setup} {depth : UInt64} {x : Subject} {base : Nat} {allowed : Event → Prop}
variable {f : Feed} {last : UInt64} {w : Ledger}

theorem fresh_of_watermark (hlast : w.ints (s.key f.watermark) = some last) (id : UInt64) :
    ∀ p, Storable p → idsBetween last id p = true →
      s.passed depth w.ints (.feed f) p = false := by
  intro p _ hp
  simp only [idsBetween, Bool.and_eq_true, decide_eq_true_eq] at hp
  have hle : ¬ p ≤ last := UInt64.not_le.2 hp.1
  simp only [Setup.passed, hlast, Option.any_some, decide_eq_false_iff_not]
  exact hle

theorem announcing_of_read {ε : Type} {id : ε → UInt64} (subject : ε → Subject) {es page : List ε}
    {c : RecordCall} {y : Except Error c.Answer} {v : Ledger} {i : UInt64} {limit : Nat}
    (hlast : w.ints (s.key f.watermark) = some last) (hnone : w.pending = [])
    (hv : ledger allowed w ⟨.records c, y⟩ v)
    (entries : Task.entries (.feed f) v.table = es.map fun e => (id e, subject e))
    (sorted : es.Pairwise fun d e => id d < id e)
    (hpage : page = (es.filter fun e => last < id e).take limit)
    (hi : page.getLast?.map id = some i) :
    last < i ∧ Announcing s depth (.feed f) x (idsBetween last i)
      (page.countP fun e => subject e = x) w.ints (page.countP fun e => subject e = x) v := by
  subst hpage
  obtain ⟨hlt, hle⟩ := feedPage_countP_le id subject sorted x hi
  obtain ⟨hints, -, -, hpending, -⟩ := ledger_records hv
  refine ⟨hlt, hints, ⟨by rw [entries]; exact hle, ?_⟩, ?_⟩
  · rw [hints]
    exact fresh_of_watermark hlast i
  · simp [hpending, hnone]

/-- What a page comes to: the hand-overs of the rows between two ids, or none at all. -/
def PageEnds (s : Setup) (depth : UInt64) (f : Feed) (x : Subject) (last : UInt64) (w : Ledger)
    (page : FeedPage) (u : Ledger) : Prop :=
  u.ints = w.ints ∧
    match page.lastId with
    | some id => last < id ∧
        Owing s depth (.feed f) x (idsBetween last id) (u.pending.count x) u
    | none => u.pending = []

theorem pageEnds_of_announcing {u : Ledger} {total : Nat} {n sent id : UInt64}
    {lastId : Option UInt64} (hid : lastId = some id) (hlt : last < id)
    (h : Announcing s depth (.feed f) x (idsBetween last id) total w.ints 0 u) :
    PageEnds s depth f x last w ⟨n, lastId, sent⟩ u := by
  subst hid
  exact ⟨h.ints, hlt, Nat.le_trans h.count h.owing.count_le, h.owing.fresh⟩

theorem handing_depositPage (hI : Accounted s depth (.feed .deposits) x base w)
    (hlast : w.ints (s.key Feed.deposits.watermark) = some last) (hnone : w.pending = []) :
    (s.depositPage last).Ensures (ledger allowed) (Accounted s depth (.feed .deposits) x base)
      (handing s depth (.feed .deposits) x) (fun _ _ => True) w
      (PageEnds s depth .deposits x last w) := by
  refine Shows.ensures_depositPage fun y v hv => ⟨hI.of_records hv, ?_⟩
  have hIv := hI.of_records hv
  obtain ⟨hints, -, -, hpending, hanswer⟩ := ledger_records hv
  cases y with
  | error e => trivial
  | ok rows =>
    obtain rfl : rows = ((v.table.deposits.filter fun e => last < e.id).take s.pageSize.toNat).map
      fun e => (e.id, e.deposit) := hanswer rows rfl
    generalize hpage : (v.table.deposits.filter fun e => last < e.id).take s.pageSize.toNat = page
    have hids : (page.map fun e => (e.id, e.deposit)).getLast?.map Prod.fst =
        page.getLast?.map DepositEntry.id := by
      rw [List.getLast?_map, Option.map_map]
      rfl
    cases hid : page.getLast?.map DepositEntry.id with
    | none =>
      obtain rfl := List.getLast?_eq_none_iff.1 (Option.map_eq_none_iff.1 hid)
      exact ⟨hints, hpending.trans hnone⟩
    | some id =>
      have read : last < id ∧
          Announcing s depth (.feed .deposits) x (idsBetween last id) _ w.ints _ v :=
        announcing_of_read (fun e => .deposit e.deposit .created) hlast hnone hv rfl
          hIv.kept.depositIds hpage.symm hid
      obtain ⟨hlt, reading⟩ := read
      have hcount : ((page.map fun e => (e.id, e.deposit)).map fun r =>
          ({ deposit := r.2, status := .created } : Notice)).countP (fun n => n.subject = x) =
            page.countP fun e => Subject.deposit e.deposit .created = x := by
        rw [List.map_map, List.countP_map]
        rfl
      rw [← hcount] at reading
      refine (announce hIv reading).mono fun sent u hu => ?_
      exact pageEnds_of_announcing (hids.trans hid) hlt hu.1

theorem announce_claims {C : Contract Ledger} {t : Task} {a : UInt64 → Bool} {total : Nat}
    {g : String → Option UInt64} {rows : List (UInt64 × Claim)} {v : Ledger}
    (hI : Accounted s depth t x base v)
    (h : Announcing s depth t x a total g (rows.countP fun row => Subject.claim row.2 = x) v) :
    (s.announceClaims rows).Ensures (ledger allowed) (Accounted s depth t x base) C
      (fun _ _ => True) v fun _ u => Announcing s depth t x a total g 0 u := by
  have hS : (ledger allowed).Shows Ledger.ints fun _ _ => True := ledger_shows
  refine hS.ensures_announceClaims (J := fun rest u =>
    Announcing s depth t x a total g (rest.countP fun row => Subject.claim row.2 = x) u) ?_ hI h
  intro i c rest z hIz hz y u hu
  have hIu := hIz.of_records hu
  have hzu := hz.of_records hu
  have skipped : Announcing s depth t x a total g
      (rest.countP fun row => Subject.claim row.2 = x) u :=
    hzu.skip (by rw [List.countP_cons]; exact Nat.le_add_right _ _)
  refine ⟨hIu, ?_⟩
  cases y with
  | error e => trivial
  | ok o =>
    refine ⟨fun _ => skipped, fun d _ => ⟨fun _ => skipped, fun _ z' hz' => ?_⟩⟩
    refine hzu.of_launch hIu hz' ?_
    have hsubject : Notice.subject { deposit := d, status := .claimed, claim := some c } = x ↔
        Subject.claim c = x := Iff.rfl
    rw [List.countP_cons]
    simp only [hsubject, decide_eq_true_eq]
    omega

theorem handing_claimPage (hI : Accounted s depth (.feed .claims) x base w)
    (hlast : w.ints (s.key Feed.claims.watermark) = some last) (hnone : w.pending = []) :
    (s.claimPage last).Ensures (ledger allowed) (Accounted s depth (.feed .claims) x base)
      (handing s depth (.feed .claims) x) (fun _ _ => True) w
      (PageEnds s depth .claims x last w) := by
  refine Shows.ensures_claimPage fun y v hv => ⟨hI.of_records hv, ?_⟩
  have hIv := hI.of_records hv
  obtain ⟨hints, -, -, hpending, hanswer⟩ := ledger_records hv
  cases y with
  | error e => trivial
  | ok rows =>
    obtain rfl : rows = ((v.table.claims.filter fun e => last < e.id).take s.pageSize.toNat).map
      fun e => (e.id, e.claim) := hanswer rows rfl
    generalize hpage : (v.table.claims.filter fun e => last < e.id).take s.pageSize.toNat = page
    have hids : (page.map fun e => (e.id, e.claim)).getLast?.map Prod.fst =
        page.getLast?.map ClaimEntry.id := by
      rw [List.getLast?_map, Option.map_map]
      rfl
    cases hid : page.getLast?.map ClaimEntry.id with
    | none =>
      obtain rfl := List.getLast?_eq_none_iff.1 (Option.map_eq_none_iff.1 hid)
      exact ⟨hints, hpending.trans hnone⟩
    | some id =>
      have read : last < id ∧
          Announcing s depth (.feed .claims) x (idsBetween last id) _ w.ints _ v :=
        announcing_of_read (fun e => .claim e.claim) hlast hnone hv rfl hIv.kept.claimIds
          hpage.symm hid
      obtain ⟨hlt, reading⟩ := read
      have hcount : (page.map fun e => (e.id, e.claim)).countP
          (fun row => Subject.claim row.2 = x) =
            page.countP fun e => Subject.claim e.claim = x := by
        rw [List.countP_map]
        rfl
      rw [← hcount] at reading
      refine (announce_claims hIv reading).mono fun sent u hu => ?_
      exact pageEnds_of_announcing (hids.trans hid) hlt hu

theorem handing_feedPage (hI : Accounted s depth (.feed f) x base w)
    (hlast : w.ints (s.key f.watermark) = some last) (hnone : w.pending = []) :
    (s.feedPage f last).Ensures (ledger allowed) (Accounted s depth (.feed f) x base)
      (handing s depth (.feed f) x) (fun _ _ => True) w (PageEnds s depth f x last w) := by
  cases f with
  | deposits => exact handing_depositPage hI hlast hnone
  | claims => exact handing_claimPage hI hlast hnone

/-- The rounds of a feed end with nothing pending: a page is settled by the write after it. -/
theorem handing_feedRound (hI : Accounted s depth (.feed f) x base w) {dispatched : UInt64}
    (hlast : w.ints (s.key f.watermark) = some last) (hnone : w.pending = []) :
    (s.feedRound f last dispatched).Ensures (ledger allowed) (Accounted s depth (.feed f) x base)
      (handing s depth (.feed f) x) (fun _ _ => True) w fun _ u => u.pending = [] := by
  have hS : (ledger allowed).Shows Ledger.ints fun _ _ => True := ledger_shows
  have goes : ∀ {page : FeedPage} {last : UInt64} {u : Ledger},
      u.ints (s.key f.watermark) = some last → u.pending = [] →
      Shows.GoesOn (ledger allowed) (Accounted s depth (.feed f) x base) (handing s depth (.feed f) x)
        (fun _ _ => True) s f page dispatched last u fun _ u => u.pending = [] := by
    intro page last u hlast hnone
    unfold Shows.GoesOn
    split
    · exact hnone
    · exact ⟨⟨rfl, rfl, hlast, hnone⟩, fun r z _ hz => hz⟩
  refine hS.ensures_feedRound hI ((handing_feedPage hI hlast hnone).keeping hI |>.mono ?_)
  rintro ⟨rows, lastId, sent⟩ u ⟨hIu, hints, hu⟩
  have hkey : u.ints (s.key f.watermark) = some last := by rw [hints, hlast]
  cases lastId with
  | none => exact goes hkey hu
  | some id =>
    obtain ⟨hlt, owing⟩ := hu
    refine ⟨fun hle => ?_, fun _ z hz => ?_⟩
    · rw [hkey] at hle
      exact absurd hle (UInt64.not_le.2 hlt)
    · obtain ⟨hzints, -, -, hznone⟩ := ledger_write hz
      have hzkey : z.ints (s.key f.watermark) = some id := by rw [hzints, Function.update_self]
      refine ⟨hIu.of_write hz owing fun p _ hp => ?_, goes hzkey hznone⟩
      simp only [Setup.passed, hkey, hzkey, Option.any_some, decide_eq_true_eq, idsBetween,
        Bool.and_eq_true] at hp ⊢
      obtain hp | hp := hp
      · exact UInt64.le_trans hp (UInt64.le_of_lt hlt)
      · exact hp.2

theorem handing_kept {t : Task} :
    (handing s depth t x).Kept (ledger allowed) (Accounted s depth t x base) := by
  rintro (⟨sc, offset, summary⟩ | ⟨s', f, last, dispatched⟩ | ⟨l, deadline⟩ | ⟨s', t', i, deadline⟩)
    w hI hn
  · exact handing_page hI hn
  · obtain ⟨rfl, rfl, hlast, hnone⟩ := hn
    exact handing_feedRound hI hlast hnone
  all_goals exact hn.elim

end Contract
end BridgeNotifier
