import BridgeNotifier.Proofs.Announcements
import BridgeNotifier.Proofs.FeedRounds
import Mathlib.Tactic.SplitIfs
set_option autoImplicit false

namespace BridgeNotifier
open RecordTable

/-- What the chains, the tables and the live depth answer. -/
structure Answers where
  chain : ChainCall → UInt64
  table : RecordTable
  depth : UInt64

def Answers.agrees (a : Answers) : Event → Prop
  | ⟨.chain c, .ok v⟩ => v = a.chain c
  | ⟨.records c, .ok x⟩ => x = a.table.answer c
  | ⟨.depth, d⟩ => d = a.depth
  | _ => True

instance (a : Answers) : DecidablePred a.agrees := by
  rintro ⟨request, reply⟩
  cases request with
  | chain c =>
    cases reply with
    | error => exact inferInstanceAs (Decidable True)
    | ok v => exact inferInstanceAs (Decidable (v = a.chain c))
  | records c =>
    cases reply with
    | error => exact inferInstanceAs (Decidable True)
    | ok x => cases c <;> exact inferInstanceAs (Decidable (x = a.table.answer _))
  | depth => exact inferInstanceAs (Decidable (reply = a.depth))
  | _ => exact inferInstanceAs (Decidable True)

namespace Program

variable {σ α β : Type} {S : Surroundings σ} {p q : Program α} {s t : σ} {es : List Event}

theorem Leads.bind (run : p.Leads S s es q t) (f : α → Program β) :
    (p.bind f).Leads S s es (q.bind f) t := by
  induction run with
  | refl p s => exact .refl _ s
  | ask h _ ih => exact .ask h ih
  | call _ ih =>
    rw [bind_assoc] at ih
    exact .call ih

theorem Leads.bind_cases {f : α → Program β} {q : Program β}
    (run : (p.bind f).Leads S s es q t) : (∃ p', p.Leads S s es p' t ∧ q = p'.bind f) ∨
      ∃ es₁ a u es₂, p.Leads S s es₁ (.done a) u ∧ (f a).Leads S u es₂ q t ∧ es = es₁ ++ es₂ := by
  generalize hp : p.bind f = whole at run
  induction run generalizing p with
  | refl q s => exact .inl ⟨p, .refl p s, hp.symm⟩
  | @ask r k x s t' t es q h rest ih =>
    cases p with
    | done a =>
      have second : f a = .ask r k := hp
      exact .inr ⟨[], a, s, _, .refl _ s, second ▸ .ask h rest, rfl⟩
    | ask r' k' =>
      injection hp with hr hk
      subst hr
      obtain ⟨p', first, rfl⟩ | ⟨es₁, a, u, es₂, first, last, rfl⟩ :=
        ih (congrFun (eq_of_heq hk) x)
      · exact .inl ⟨p', .ask h first, rfl⟩
      · exact .inr ⟨⟨r', x⟩ :: es₁, a, u, es₂, .ask h first, last, rfl⟩
    | call l k => cases hp
  | @call l k s t es q rest ih =>
    cases p with
    | done a =>
      have second : f a = .call l k := hp
      exact .inr ⟨[], a, s, _, .refl _ s, second ▸ .call rest, rfl⟩
    | ask r k => cases hp
    | call l' k' =>
      injection hp with hl hk
      subst hl
      have body : (l'.body.bind k').bind f = l'.body.bind k := by
        rw [bind_assoc, ← eq_of_heq hk]
      obtain ⟨p', first, rfl⟩ | ⟨es₁, a, u, es₂, first, last, rfl⟩ := ih body
      · exact .inl ⟨p', .call first, rfl⟩
      · exact .inr ⟨es₁, a, u, es₂, .call first, last, rfl⟩

theorem Leads.of_bind {f : α → Program β} {b : β} (run : (p.bind f).Leads S s es (.done b) t) :
    ∃ es₁ a u es₂, p.Leads S s es₁ (.done a) u ∧ (f a).Leads S u es₂ (.done b) t ∧
      es = es₁ ++ es₂ := by
  obtain ⟨p', first, ended⟩ | parts := run.bind_cases
  · cases p' with
    | done a => exact ⟨es, a, t, [], first, ended ▸ .refl _ t, (List.append_nil es).symm⟩
    | ask r k => cases ended
    | call l k => cases ended
  · exact parts

/-- The program can come to its end with a result and a state of which `P` holds. -/
def CanEnd (S : Surroundings σ) (p : Program α) (s : σ) (P : α → σ → Prop) : Prop :=
  ∃ es a t, p.Leads S s es (.done a) t ∧ P a t

def Completes (S : Surroundings σ) (p : Program α) (P : α → Prop) : Prop :=
  ∀ s, p.CanEnd S s fun a _ => P a

theorem canEnd_bind {f : α → Program β} {Q : β → σ → Prop}
    (h : p.CanEnd S s fun a t => (f a).CanEnd S t Q) : (p.bind f).CanEnd S s Q := by
  obtain ⟨es, a, t, run, es', b, u, run', hb⟩ := h
  exact ⟨es ++ es', b, u, (run.bind f).trans run', hb⟩

theorem canEnd_ask {r : Request} {k : r.Reply → Program α} {x : r.Reply} {P : α → σ → Prop}
    (hx : S s ⟨r, x⟩ t) (h : (k x).CanEnd S t P) : (ask r k).CanEnd S s P := by
  obtain ⟨es, a, u, run, ha⟩ := h
  exact ⟨⟨r, x⟩ :: es, a, u, .ask hx run, ha⟩

variable {P : α → Prop} {Q : β → Prop}

theorem completes_done {a : α} (h : P a) : (done a).Completes S P :=
  fun s => ⟨[], a, s, .refl _ s, h⟩

theorem completes_bind {f : α → Program β} (hp : p.Completes S P)
    (hf : ∀ a, P a → (f a).Completes S Q) : (p.bind f).Completes S Q := by
  intro s
  obtain ⟨es, a, t, run, ha⟩ := hp s
  exact canEnd_bind ⟨es, a, t, run, hf a ha t⟩

theorem completes_request {r : Request} {P : r.Reply → Prop}
    (h : ∀ s, ∃ x t, S s ⟨r, x⟩ t ∧ P x) : (Program.request r).Completes S P := by
  intro s
  obtain ⟨x, t, hx, hP⟩ := h s
  exact canEnd_ask hx ⟨[], x, t, .refl _ t, hP⟩

theorem completes_loop {l : Loop} {P : l.Result → Prop} (h : l.body.Completes S P) :
    (Program.loop l).Completes S P := by
  intro s
  obtain ⟨es, x, t, run, hx⟩ := h s
  refine ⟨es, x, t, .call ?_, hx⟩
  have body : l.body.bind done = l.body := bind_done l.body
  rw [body]
  exact run

end Program

namespace Routine

variable {σ α β : Type} {S : Surroundings σ}

def Succeeds (S : Surroundings σ) (p : Routine α) (P : α → Prop) : Prop :=
  p.run.Completes S fun r => ∃ a, r = .ok a ∧ P a

variable {P : α → Prop} {Q : β → Prop}

theorem Succeeds.mono {R : α → Prop} {p : Routine α} (h : p.Succeeds S P) (hR : ∀ a, P a → R a) :
    p.Succeeds S R := by
  intro s
  obtain ⟨es, r, t, run, a, ha, hP⟩ := h s
  exact ⟨es, r, t, run, a, ha, hR a hP⟩

theorem succeeds_pure {a : α} (h : P a) : (pure a : Routine α).Succeeds S P :=
  Program.completes_done ⟨a, rfl, h⟩

theorem succeeds_bind {p : Routine α} {f : α → Routine β} (hp : p.Succeeds S P)
    (hf : ∀ a, P a → (f a).Succeeds S Q) : (p >>= f).Succeeds S Q := by
  refine Program.completes_bind (f := ExceptT.bindCont f) hp ?_
  rintro r ⟨a, rfl, ha⟩
  exact hf a ha

theorem succeeds_lift {p : Program α} (hp : p.Completes S P) :
    Routine.Succeeds S (ExceptT.lift p) P :=
  Program.completes_bind hp fun a ha => Program.completes_done ⟨a, rfl, ha⟩

end Routine

namespace Surroundings
open Memory

/-- A store in memory beside chains, tables and a depth that stand still. No call fails. -/
def calm (a : Answers) : Surroundings Memory :=
  shared.only fun e => a.agrees e ∧ e.error? = none

variable {a : Answers} {m n : Memory}

theorem calm_store {c : StoreCall} {x : c.Answer} (leases : String → Option Held)
    (h : Memory.call 0 { m with leases := leases } c = (.ok x, n)) :
    calm a m ⟨.store c, .ok x⟩ n :=
  ⟨⟨trivial, rfl⟩, .inl ⟨leases, 0, h.symm⟩⟩

theorem calm_popOldest (a : Answers) (key : String) (h : m.lists key ≠ []) :
    ∃ x n, calm a m ⟨.store (.popOldest key), .ok x⟩ n := by
  have last : (m.lists key).getLast? = some ((m.lists key).getLast h) :=
    List.getLast?_eq_some_getLast h
  have popped : Memory.call 0 m (.popOldest key) = (.ok ((m.lists key).getLast h),
      { m with
        lists := Function.update m.lists key (m.lists key).dropLast
        writes := m.writes + 1 }) := Memory.call_popOldest last
  exact ⟨_, _, calm_store m.leases popped⟩

end Surroundings

namespace Setup
open Routine Surroundings

variable {s : Setup} {a : Answers}

section Requests
variable {ns : String} {k : Watermark} {value : UInt64}

theorem succeeds_chain (c : ChainCall) : (Routine.chain c).Succeeds (calm a) fun _ => True := by
  intro m
  have answered : calm a m ⟨.chain c, .ok (a.chain c)⟩ m := ⟨⟨rfl, rfl⟩, rfl⟩
  exact ⟨_, _, m, .ask answered (.refl _ m), _, rfl, trivial⟩

theorem succeeds_records (c : RecordCall) :
    (Routine.records c).Succeeds (calm a) (· = a.table.answer c) := by
  intro m
  have answered : calm a m ⟨.records c, .ok (a.table.answer c)⟩ m := ⟨⟨rfl, rfl⟩, rfl⟩
  exact ⟨_, _, m, .ask answered (.refl _ m), _, rfl, rfl⟩

theorem succeeds_store {c : StoreCall} {P : c.Answer → Prop}
    (h : ∀ m : Memory, ∃ leases x n,
      Memory.call 0 { m with leases := leases } c = (.ok x, n) ∧ P x) :
    (Routine.store c).Succeeds (calm a) P := by
  intro m
  obtain ⟨leases, x, n, hx, hP⟩ := h m
  exact ⟨_, _, n, .ask (calm_store leases hx) (.refl _ n), x, rfl, hP⟩

theorem completes_tell {r : Request} (x : r.Reply) (h : ∀ m, calm a m ⟨r, x⟩ m) :
    (Program.request r).Completes (calm a) fun _ => True :=
  Program.completes_request fun m => ⟨x, m, h m, trivial⟩

theorem completes_measure (m : Measurement) :
    (Program.request (.measure m)).Completes (calm a) fun _ => True :=
  completes_tell () fun _ => ⟨⟨trivial, rfl⟩, rfl⟩

theorem succeeds_measure (m : Measurement) :
    (Routine.measure m).Succeeds (calm a) fun _ => True :=
  succeeds_lift (completes_measure m)

theorem succeeds_get? : (Checkpoint.get? ns k).Succeeds (calm a) fun _ => True :=
  succeeds_store fun m => ⟨m.leases, _, _, rfl, trivial⟩

theorem succeeds_setInt (key : String) :
    (Routine.store (.setInt key value)).Succeeds (calm a) fun _ => True :=
  succeeds_store fun m => ⟨m.leases, _, _, rfl, trivial⟩

theorem succeeds_get : (Checkpoint.get ns k).Succeeds (calm a) fun _ => True :=
  succeeds_bind succeeds_get? fun _ _ => succeeds_pure trivial

theorem succeeds_advance : (Checkpoint.advance ns k value).Succeeds (calm a) fun _ => True := by
  refine succeeds_bind succeeds_get fun current _ => ?_
  split_ifs
  · exact succeeds_pure trivial
  · exact succeeds_pure trivial
  · exact succeeds_bind (succeeds_setInt _) fun _ _ => succeeds_pure trivial

theorem succeeds_seed : (Checkpoint.seed ns k value).Succeeds (calm a) fun _ => True := by
  refine succeeds_bind succeeds_get? fun current _ => ?_
  split_ifs
  · exact succeeds_pure trivial
  · exact succeeds_bind (succeeds_setInt _) fun _ _ => succeeds_pure trivial

end Requests

theorem completes_offer (d : Dispatcher) (n : Notice) :
    (d.offer n).Completes (calm a) fun _ => True := by
  unfold Dispatcher.offer
  split_ifs
  · exact Program.completes_done trivial
  · exact Program.completes_bind (completes_measure _) fun _ _ => Program.completes_done trivial
  · have launched : (Program.request (.launch d n)).Completes (calm a) fun _ => True :=
      completes_tell () fun _ => ⟨⟨trivial, rfl⟩, rfl⟩
    exact Program.completes_bind launched fun _ _ => Program.completes_done trivial

theorem completes_offerAll (d : Dispatcher) (ns : List Notice) :
    (offerAll d ns).Completes (calm a) fun _ => True := by
  induction ns with
  | nil => exact Program.completes_done trivial
  | cons n rest ih =>
    exact Program.completes_bind (completes_offer d n) fun _ _ =>
      Program.completes_bind ih fun _ _ => Program.completes_done trivial

theorem succeeds_announceClaims (rows : List (UInt64 × Claim)) :
    (s.announceClaims rows).Succeeds (calm a) fun _ => True := by
  induction rows with
  | nil => exact succeeds_pure trivial
  | cons row rest ih =>
    obtain ⟨id, c⟩ := row
    refine succeeds_bind (succeeds_records _) fun found _ => ?_
    have left : ∀ sent : Bool, Routine.Succeeds (calm a) (do
        let n ← s.announceClaims rest
        return (if sent then 1 else 0) + n) fun _ => True :=
      fun sent => succeeds_bind ih fun _ _ => succeeds_pure trivial
    cases found with
    | none => exact succeeds_bind (succeeds_pure (P := fun _ => True) trivial) fun sent _ => left sent
    | some d => exact succeeds_bind (succeeds_lift (completes_offer _ _)) fun sent _ => left sent

theorem succeeds_recordSample (e : Estimator) (secs : UInt64) :
    (e.recordSample secs).Succeeds (calm a) fun _ => True := by
  intro m
  refine Program.canEnd_ask (calm_store m.leases (Memory.call_push 0 m e.windowKey secs)) ?_
  simp only [Program.bind, ExceptT.bindCont]
  split_ifs
  · exact succeeds_pure trivial _
  · obtain ⟨oldest, n, popped⟩ := calm_popOldest a e.windowKey
      (m := { m with lists := Function.update m.lists e.windowKey (secs :: m.lists e.windowKey)
                     writes := m.writes + 1 }) (by simp)
    refine Program.canEnd_ask popped ?_
    simp only [Program.bind, ExceptT.bindCont]
    split
    · exact succeeds_pure trivial n
    split_ifs
    · exact succeeds_pure trivial n
    · exact succeeds_bind (succeeds_setInt _) (fun _ _ => succeeds_pure trivial) n

theorem succeeds_recordDuration (r : Role) :
    (s.recordDuration r).Succeeds (calm a) fun _ => True := by
  have clock : (Program.request .sampleClock).Completes (calm a) fun _ => True :=
    completes_tell 0 fun _ => ⟨⟨trivial, rfl⟩, rfl⟩
  refine succeeds_bind (succeeds_lift clock) fun now _ => ?_
  refine succeeds_bind (succeeds_recordSample _ (now / 1000)) fun sample _ => ?_
  cases sample with
  | filling n => exact succeeds_pure trivial
  | overflow => exact succeeds_pure trivial
  | accepted average => exact succeeds_measure _
  | rejected average => exact succeeds_measure _

/-- Each full page leaves fewer rows behind the offset. -/
theorem completes_scan (kept : a.table.WellKept) (sc : Scan) (size : 0 < sc.pageSize.toNat)
    (offset : UInt64) (summary : ScanSummary) (le : offset.toNat ≤ (sc.found a.table).length) :
    (Routine.ofProgram (Program.loop (.scan sc offset summary))).Succeeds (calm a) fun _ => True := by
  generalize hleft : (sc.found a.table).length - offset.toNat = left
  induction left using Nat.strongRecOn generalizing offset summary with
  | ind left ih =>
    refine Program.completes_loop (l := .scan sc offset summary) ?_
    refine succeeds_bind (succeeds_records _) ?_
    rintro rows rfl
    have same : a.table.answer (.maturing sc.network sc.range sc.pageSize offset) =
      sc.rowsAt a.table offset.toNat := rfl
    rw [same]
    refine succeeds_bind (succeeds_measure _) fun _ _ => ?_
    refine succeeds_bind (succeeds_lift (completes_offerAll _ _)) fun sent _ => ?_
    have length := sc.length_rowsAt a.table offset.toNat
    have next := Scan.toNat_next (s := sc) kept le
    have bound := sc.pageSize.toNat_lt
    have word : (UInt64.ofNat (sc.rowsAt a.table offset.toNat).length).toNat =
        (sc.rowsAt a.table offset.toNat).length := by
      rw [UInt64.toNat_ofNat', Nat.mod_eq_of_lt (by omega)]
    split_ifs with short
    · exact succeeds_pure trivial
    · rw [UInt64.lt_iff_toNat_lt, word, UInt32.toNat_toUInt64] at short
      exact ih _ (by omega) _ _ (by omega) rfl

theorem succeeds_scan (kept : a.table.WellKept) (sc : Scan) (size : 0 < sc.pageSize.toNat) :
    sc.run.Succeeds (calm a) fun _ => True := by
  unfold Scan.run
  split_ifs
  · exact succeeds_pure trivial
  · exact completes_scan kept sc size 0 _ (Nat.zero_le _)

theorem deposit_ids (t : RecordTable) (last : UInt64) (k : UInt32) :
    List.map Prod.fst (t.answer (.depositsAfter last k)) =
      ((Feed.deposits.ids t).filter (last < ·)).take k.toNat := by
  simp [RecordTable.answer, Feed.ids, List.filter_map, List.map_take, Function.comp_def]

theorem claim_ids (t : RecordTable) (last : UInt64) (k : UInt32) :
    List.map Prod.fst (t.answer (.claimsAfter last k)) =
      ((Feed.claims.ids t).filter (last < ·)).take k.toNat := by
  simp [RecordTable.answer, Feed.ids, List.filter_map, List.map_take, Function.comp_def]

def PageOf (s : Setup) (a : Answers) (f : Feed) (last : UInt64) (page : FeedPage) : Prop :=
  ∃ (α : Type) (rows : List (UInt64 × α)) (sent : UInt64),
    rows.map Prod.fst = ((f.ids a.table).filter (last < ·)).take s.pageSize.toNat ∧
      page = ⟨UInt64.ofNat rows.length, rows.getLast?.map Prod.fst, sent⟩

theorem succeeds_feedPage (f : Feed) (last : UInt64) :
    (s.feedPage f last).Succeeds (calm a) (s.PageOf a f last) := by
  cases f with
  | deposits =>
    refine succeeds_bind (succeeds_records _) fun rows answer => ?_
    refine succeeds_bind (succeeds_lift (completes_offerAll _ _)) fun sent _ => ?_
    exact succeeds_pure ⟨_, rows, sent, by rw [answer, deposit_ids], rfl⟩
  | claims =>
    refine succeeds_bind (succeeds_records _) fun rows answer => ?_
    refine succeeds_bind (succeeds_announceClaims _) fun sent _ => ?_
    exact succeeds_pure ⟨_, rows, sent, by rw [answer, claim_ids], rfl⟩

theorem above_lt {ids : List UInt64} {last id : UInt64} (lt : last < id) (mem : id ∈ ids) :
    (ids.filter (id < ·)).length < (ids.filter (last < ·)).length := by
  have inner : ids.filter (id < ·) = (ids.filter (last < ·)).filter (id < ·) := by
    rw [List.filter_filter]
    refine List.filter_congr fun n _ => ?_
    by_cases h : id < n
    · simp [h, UInt64.lt_trans lt h]
    · simp [h]
  rw [inner]
  exact List.length_filter_lt_length_iff_exists.2
    ⟨id, List.mem_filter.2 ⟨mem, by simpa using lt⟩, by simp⟩

theorem completes_feed (kept : a.table.WellKept) (f : Feed) (last dispatched : UInt64) :
    (Routine.ofProgram (Program.loop (.feed s f last dispatched))).Succeeds (calm a)
      fun _ => True := by
  generalize hleft : ((f.ids a.table).filter (last < ·)).length = left
  induction left using Nat.strongRecOn generalizing last dispatched with
  | ind left ih =>
    refine Program.completes_loop (l := .feed s f last dispatched) ?_
    refine succeeds_bind (succeeds_feedPage f last) ?_
    rintro page ⟨α, rows, sent, hrows, rfl⟩
    refine succeeds_bind (succeeds_measure _) fun _ _ => ?_
    have length : rows.length ≤ s.pageSize.toNat := by
      rw [← List.length_map Prod.fst, hrows]
      exact List.length_take_le _ _
    have sorted := Feed.ids_sorted (f := f) kept
    cases hi : rows.getLast?.map Prod.fst with
    | none =>
      have empty : rows = [] := by simpa using hi
      have short : UInt64.ofNat rows.length < s.pageSize.toUInt64 := by
        rw [short_iff length, empty]
        exact s.pageSize_pos
      refine succeeds_bind (succeeds_pure (P := fun x => True) trivial) fun x _ => ?_
      simp only [if_pos short]
      exact succeeds_pure trivial
    | some id =>
      obtain ⟨lt, mem, -⟩ := page_ids sorted hrows hi
      refine succeeds_bind succeeds_advance fun _ _ =>
        succeeds_bind (succeeds_pure (P := (· = id)) rfl) ?_
      rintro x rfl
      split_ifs
      · exact succeeds_pure trivial
      · exact ih _ (hleft ▸ above_lt lt mem) _ _ rfl

theorem succeeds_sweep (kept : a.table.WellKept) (t : Task) :
    (s.sweep t).Succeeds (calm a) (· ≠ .locked) := by
  cases t with
  | maturity =>
    refine succeeds_bind succeeds_get fun oldHead _ => ?_
    refine succeeds_bind (succeeds_chain _) fun newHead _ => ?_
    split_ifs
    · exact succeeds_pure (by simp)
    have depth : (Program.request .depth).Completes (calm a) fun _ => True :=
      completes_tell a.depth fun _ => ⟨⟨rfl, rfl⟩, rfl⟩
    refine succeeds_bind (succeeds_lift depth) fun depth _ => ?_
    refine succeeds_bind succeeds_get? fun lastScanned _ => ?_
    have scanned : ∀ n, (s.recordHead oldHead newHead n).Succeeds (calm a) (· ≠ .locked) := fun n =>
      succeeds_bind succeeds_advance fun _ _ => succeeds_bind (succeeds_measure _) fun _ _ =>
        succeeds_pure (by simp)
    cases matured? oldHead newHead depth lastScanned with
    | none => exact succeeds_bind (succeeds_pure (P := fun _ => True) trivial) fun n _ => scanned n
    | some range =>
      refine succeeds_bind (succeeds_scan kept _ s.pageSize_pos) fun summary _ => ?_
      exact succeeds_bind succeeds_advance fun _ _ =>
        succeeds_bind (succeeds_pure (P := fun _ => True) trivial) fun n _ => scanned n
  | batch r =>
    refine succeeds_bind (succeeds_chain _) fun latest _ => ?_
    refine succeeds_bind succeeds_get fun stored _ => ?_
    split_ifs
    · exact succeeds_pure (by simp)
    refine succeeds_bind (succeeds_chain _) fun newCeiling _ => ?_
    refine succeeds_bind succeeds_get fun oldCeiling _ => ?_
    have recorded : ∀ n, (s.recordBatch r stored latest n).Succeeds (calm a) (· ≠ .locked) :=
      fun n => succeeds_bind succeeds_advance fun _ _ =>
        succeeds_bind (succeeds_measure _) fun _ _ =>
          succeeds_bind (succeeds_recordDuration r) fun _ _ => succeeds_pure (by simp)
    have settled : ∀ n, (s.settleBatch r newCeiling stored latest n).Succeeds (calm a)
        (· ≠ .locked) := by
      intro n
      refine succeeds_bind succeeds_advance fun moved _ => ?_
      cases moved with
      | false => exact recorded n
      | true => exact succeeds_bind (succeeds_measure _) fun _ _ => recorded n
    split_ifs
    · refine succeeds_bind (succeeds_scan kept _ s.pageSize_pos) fun summary _ => ?_
      exact succeeds_bind (succeeds_pure (P := fun _ => True) trivial) fun n _ => settled n
    · exact succeeds_bind (succeeds_pure (P := fun _ => True) trivial) fun n _ => settled n
  | feed f =>
    refine succeeds_bind succeeds_get? fun mark _ => ?_
    cases mark with
    | none =>
      have asked : (latestId f).Succeeds (calm a) fun _ => True := by
        cases f with
        | deposits => exact (succeeds_records _).mono fun _ _ => trivial
        | claims => exact (succeeds_records _).mono fun _ _ => trivial
      refine succeeds_bind asked fun latest _ => ?_
      exact succeeds_bind succeeds_seed fun _ _ => succeeds_pure (by simp)
    | some start =>
      refine succeeds_bind (completes_feed kept f start 0) fun ends _ => ?_
      obtain ⟨last, dispatched⟩ := ends
      dsimp only
      split_ifs
      · exact succeeds_pure (by simp)
      · exact succeeds_bind (succeeds_measure _) fun _ _ => succeeds_pure (by simp)

theorem succeeds_acquire (key : String) (ttl : Interval) :
    (Lock.acquire key ttl).Succeeds (calm a) fun l => l.isSome := by
  have named : (Program.request .token).Completes (calm a) fun _ => True :=
    completes_tell "" fun _ => ⟨⟨trivial, rfl⟩, rfl⟩
  refine succeeds_bind (succeeds_lift named) fun token _ => ?_
  have free : ∀ m : Memory, Memory.held? { m with leases := fun _ => none } 0 key = none :=
    fun _ => rfl
  refine succeeds_bind (P := (· = true)) (succeeds_store fun m =>
    ⟨fun _ => none, true, _, Memory.call_tryLock_free (free m), rfl⟩) ?_
  rintro taken rfl
  have held : (Program.request (.hold ⟨key, token, ttl⟩)).Completes (calm a) fun _ => True :=
    completes_tell () fun _ => ⟨⟨trivial, rfl⟩, rfl⟩
  exact succeeds_bind (succeeds_lift held) fun _ _ => succeeds_pure rfl

theorem completes_release (l : Lease) : (Lock.release l).Completes (calm a) fun _ => True := by
  have left : (Program.request (.letGo l)).Completes (calm a) fun _ => True :=
    completes_tell () fun _ => ⟨⟨trivial, rfl⟩, rfl⟩
  refine Program.completes_bind left fun _ _ => ?_
  have freed : (Program.request (.store (.releaseLock l.key l.token))).Completes (calm a)
      fun _ => True := by
    refine Program.completes_request fun m => ?_
    by_cases own : (m.held? 0 l.key).map Held.token = some l.token
    · exact ⟨_, _, calm_store m.leases (Memory.call_releaseLock_own own), trivial⟩
    · exact ⟨_, _, calm_store m.leases (Memory.call_releaseLock_other own), trivial⟩
  exact Program.completes_bind freed fun _ _ => Program.completes_done trivial

/-- An uninterrupted tick comes to its end. -/
theorem succeeds_tick (kept : a.table.WellKept) (t : Task) :
    (s.tick t).Succeeds (calm a) (· ≠ .locked) := by
  refine succeeds_bind (succeeds_acquire _ _) fun l hl => ?_
  cases l with
  | none => cases hl
  | some l =>
    refine succeeds_bind (succeeds_lift (succeeds_sweep kept t)) ?_
    rintro r ⟨o, rfl, unlocked⟩
    refine succeeds_bind (succeeds_lift (completes_release l)) fun _ _ => ?_
    exact succeeds_pure unlocked

end Setup
end BridgeNotifier
