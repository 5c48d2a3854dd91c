import BridgeNotifier.Proofs.Commutation
import BridgeNotifier.Proofs.DispatchCalls
import BridgeNotifier.Proofs.EnvelopeText
import BridgeNotifier.Proofs.Rounding
set_option autoImplicit false

/-!
# Accounts of dispatches

What the ticks report, what the transport was handed and what the counters say come to the same,
once nothing is left of the sends in the background, but for sends that broke down over an estimate.
Messages may fail; each of them is handed over once.
-/
namespace BridgeNotifier
open Surroundings Replicas

namespace Event

def sent? : Event → Option (Envelope × NoticeResult)
  | ⟨.send e, x⟩ => some (e, if x.isOk then .sent else .failed)
  | _ => none

end Event

def sends (es : List Event) : List (Envelope × NoticeResult) :=
  es.filterMap Event.sent?

theorem messages_eq (es : List Event) : messages es = (sends es).map Prod.fst := by
  rw [messages, sends, List.map_filterMap]
  refine List.filterMap_congr fun e _ => ?_
  obtain ⟨r, x⟩ := e
  cases r <;> rfl

theorem sends_append (es fs : List Event) : sends (es ++ fs) = sends es ++ sends fs :=
  List.filterMap_append

theorem sends_flatMap (ts : List (Thread Unit)) :
    sends (ts.flatMap Thread.events) = ts.flatMap fun t => sends t.events :=
  List.filterMap_flatMap

theorem noticeResults_flatMap (ts : List (Thread Unit)) :
    noticeResults (ts.flatMap Thread.events) = ts.flatMap fun t => noticeResults t.events :=
  List.filterMap_flatMap

theorem noticeResults_append (es fs : List Event) :
    noticeResults (es ++ fs) = noticeResults es ++ noticeResults fs :=
  List.filterMap_append

namespace Envelope
open Json

def status? (e : Envelope) : Option Nat :=
  match parse? e.pushContent with
  | some (.list [update]) => (update.get? "status").bind Value.nat?
  | _ => none

theorem status?_ofUpdate (bizCode requestId : String) (u : TransferUpdate) (now : UInt64) :
    (ofUpdate bizCode u requestId now).status? = some u.status.toNat := by
  have whole : (Value.list [u.toJson]).Whole := ⟨u.whole_toJson, trivial⟩
  have read : parse? (ofUpdate bizCode u requestId now).pushContent =
      some (.list [u.toJson]) := parse?_toText whole
  have found : u.toJson.get? "status" = some (TransferUpdate.word32 u.status) := by
    have other : ∀ {α : Type} {name : String} {write : α → Value} {o : Option α},
        (name == "status") = false →
        (TransferUpdate.member? name write o).reverse.find? (fun m => m.1 == "status") = none := by
      intro α name write o hn
      cases o with
      | none => rfl
      | some a => simp [TransferUpdate.member?, hn]
    simp only [TransferUpdate.toJson, Value.get?, TransferUpdate.members, List.reverse_append,
      List.find?_append]
    simp [other]
  rw [status?, read]
  simp only [found]
  rfl

end Envelope

/-- A counter of dispatches after the measurements among some events. -/
def dispatchCounter (es : List Event) (st : Status) (r : NoticeResult) : Int :=
  ((measured es).foldl Metrics.record []).value (Metrics.seriesOf (.notice st r))

theorem seriesOf_notice_iff {m : Measurement} {st : Status} {r : NoticeResult} :
    Metrics.seriesOf m = Metrics.seriesOf (.notice st r) ↔ m = .notice st r := by
  constructor
  · intro same
    cases m with
    | notice st' r' =>
      have values : [r'.label, st'.name] = [r.label, st.name] := congrArg Series.values same
      cases st <;> cases st' <;> cases r <;> cases r' <;>
        first | rfl | exact absurd values (by decide)
    | _ => cases same
  · rintro rfl
    rfl

theorem dispatchCounter_eq (es : List Event) (st : Status) (r : NoticeResult) :
    dispatchCounter es st r = (noticeResults es).count (st, r) := by
  have counted : ((measured es).filter fun m => Metrics.seriesOf m = Metrics.seriesOf (.notice st r)
      ).length = (noticeResults es).count (st, r) := by
    rw [← List.countP_eq_length_filter, measured, noticeResults, List.countP_filterMap,
      List.count_filterMap]
    refine List.countP_congr fun e _ => ?_
    obtain ⟨q, x⟩ := e
    cases q with
    | measure m =>
      simp only [Event.measurement?, Option.map_some, Option.getD_some, decide_eq_true_eq,
        seriesOf_notice_iff]
      cases m <;> simp [Event.noticeResult?]
    | _ => simp [Event.measurement?, Event.noticeResult?]
  have counter : (Metrics.seriesOf (.notice st r)).family.isGauge = false := rfl
  rw [dispatchCounter, Metrics.value_foldl, Metrics.foldl_counter counter (by simp), counted]
  simp [Metrics.value]

theorem EstimateConfig.minutes_eq_none_iff {c : EstimateConfig} {deposit : Deposit}
    {average now : UInt64} : c.minutes deposit average now = none ↔ deposit.fromMain = false ∧
      2 ^ 64 ≤ average.toNat - (now.toNat - deposit.createdMillis.toNat) / 1000 + 30 := by
  have thousand : (1000 : UInt64).toNat = 1000 := rfl
  rw [EstimateConfig.minutes]
  split
  · simp_all
  · rw [remainingMinutes_eq_none_iff, UInt64.toNat_div, Word.toNat_subFloored, thousand]
    simp_all

namespace Dispatcher

variable {d : Dispatcher} {n : Notice} {σ : Type} {S : Surroundings σ} {w v : σ} {es : List Event}

def Delivers (d : Dispatcher) (n : Notice) (x : Envelope × NoticeResult) : Prop :=
  (∃ chains minutes id now,
    x.1 = .ofUpdate d.bizCode (n.update chains d.rollupId minutes) id now) ∧ x.2 ≠ .skipped

/-- The deposit was just made and leaves a rollup, and the average that was found is so high that its
rest cannot be rounded. -/
def Overflows (d : Dispatcher) (n : Notice) (es : List Event) : Prop :=
  n.status = .created ∧ n.deposit.fromMain = false ∧ ∃ chains now answer rest,
    es = ⟨.chainIds, chains⟩ :: ⟨.millis, now⟩ ::
      ⟨.store (.getInt d.commitEstimator.averageKey), answer⟩ :: rest ∧
    2 ^ 64 ≤ (d.commitEstimator.averageAfter answer).toNat -
      (now.toNat - n.deposit.createdMillis.toNat) / 1000 + 30

/-- The send of a notice has handed over one message and counted how that went, or it broke down over
an estimate that overflows. -/
structure Settles (d : Dispatcher) (n : Notice) (t : Thread Unit) : Prop where
  brokeDown_iff : t.brokeDown = true ↔ d.Overflows n t.events
  broken : t.brokeDown = true → sends t.events = []
  handed : t.brokeDown = false → ∃ x, d.Delivers n x ∧ sends t.events = [x]
  counted : noticeResults t.events = (sends t.events).map fun x => (n.status, x.2)

theorem Updates.unsent {o : Option TransferUpdate} (h : d.Updates n o es) :
    sends es = [] ∧ noticeResults es = [] := by
  cases h <;> exact ⟨rfl, rfl⟩

theorem Updates.handed {u : TransferUpdate} (h : d.Updates n (some u) es) (id : String)
    (now : UInt64) (result : Except Error Unit) :
    sends (es ++ d.handing n u id now result) =
        [(.ofUpdate d.bizCode u id now, if result.isOk then .sent else .failed)] ∧
      noticeResults (es ++ d.handing n u id now result) =
        [(n.status, if result.isOk then .sent else .failed)] := by
  rw [sends_append, noticeResults_append, h.unsent.1, h.unsent.2]
  exact ⟨rfl, rfl⟩

theorem Updates.overflows (h : d.Updates n none es) : d.Overflows n es := by
  generalize broken : (none : Option TransferUpdate) = o at h
  cases h with
  | plain other chains => cases broken
  | flat created main chains now => cases broken
  | estimated created rollup chains now answer =>
    have overflows := Option.map_eq_none_iff.1 broken.symm
    exact ⟨created, rollup, chains, now, answer, [], rfl,
      (EstimateConfig.minutes_eq_none_iff.1 overflows).2⟩

theorem Updates.not_overflows {u : TransferUpdate} (h : d.Updates n (some u) es)
    (later : List Event) : ¬ d.Overflows n (es ++ later) := by
  rintro ⟨created, rollup, chains, now, answer, rest, seen, overflows⟩
  generalize told : some u = o at h
  cases h with
  | plain other chains => exact other created
  | flat created main chains now => simp [main] at rollup
  | estimated created rollup chains' now' answer' =>
    cases seen
    rw [EstimateConfig.minutes_eq_none_iff.2 ⟨rollup, overflows⟩] at told
    cases told

theorem Delivery.settles {t : Thread Unit} (h : d.Delivery n t.events) (ended : t.program = .done ()) :
    d.Settles n t := by
  have ended' : t.program.result?.isSome = true := by rw [ended]; rfl
  obtain ⟨es, p⟩ := t
  generalize whole : Thread.events ⟨es, p⟩ = es' at h
  obtain rfl : es = es' := whole
  cases h with
  | broken update =>
    obtain ⟨unsent, uncounted⟩ := update.unsent
    obtain ⟨untold, -, begins⟩ := update.silent
    have broke : Thread.brokeDown ⟨es, p⟩ = true := by
      simp [Thread.brokeDown, ended', untold, begins]
    refine ⟨⟨fun _ => update.overflows, fun _ => broke⟩, fun _ => unsent, fun whole => ?_, ?_⟩
    · rw [broke] at whole
      cases whole
    · exact uncounted.trans (congrArg (List.map _) unsent).symm
  | @handed es u update id now result =>
    obtain ⟨sent, counted⟩ := update.handed id now result
    have unbroken : Thread.brokeDown ⟨es ++ d.handing n u id now result, p⟩ = false := by
      simp [Thread.brokeDown, messages_eq, sent]
    refine ⟨⟨fun broke => ?_, fun overflows => absurd overflows (update.not_overflows _)⟩,
      fun broke => ?_, fun _ => ⟨_, ⟨?_, ?_⟩, sent⟩, ?_⟩
    · rw [unbroken] at broke
      cases broke
    · rw [unbroken] at broke
      cases broke
    · obtain ⟨chains, minutes, rfl⟩ := update.eq_update
      exact ⟨chains, minutes, id, now, rfl⟩
    · cases result.isOk <;> simp
    · exact counted.trans (congrArg (List.map fun x : Envelope × NoticeResult => (n.status, x.2))
        sent).symm

theorem eq_done_of_isRenewal {p : Program Unit} (own : p.IsDelivery) (left : p.IsRenewal) :
    p = .done () := by
  obtain ⟨d, own⟩ := own
  cases p with
  | done => rfl
  | ask r k =>
    have asks := own.1
    have renews := left.1
    cases r with
    | store c =>
      obtain rfl : c = .getInt d.commitEstimator.averageKey := asks
      cases renews
    | instant | pause => exact asks.elim
    | _ => cases renews
  | call l k => exact own.1.elim

end Dispatcher

def lost (ts : List (Thread Unit)) : Nat :=
  ts.countP Thread.brokeDown

namespace Dispatcher

variable {d : Dispatcher} {n : Notice} {ns : List Notice} {t : Thread Unit}
  {ts : List (Thread Unit)}

theorem Settles.status_code {x : Envelope × NoticeResult} (h : d.Delivers n x) (st : Status) :
    (x.1.status? = some st.code.toNat) ↔ n.status = st := by
  obtain ⟨⟨chains, minutes, id, now, about⟩, -⟩ := h
  rw [about, Envelope.status?_ofUpdate, Notice.update_status, Option.some.injEq]
  exact ⟨fun same => Status.code_injective (UInt32.toNat_inj.1 same), fun same => by rw [same]⟩

theorem Settles.counts (h : d.Settles n t) (st : Status) :
    (messages t.events).countP (fun e => e.status? = some st.code.toNat) +
        (if st = .created ∧ t.brokeDown then 1 else 0) = (if n.status = st then 1 else 0) ∧
      (noticeResults t.events).count (st, .sent) + (noticeResults t.events).count (st, .failed) =
        (messages t.events).countP (fun e => e.status? = some st.code.toNat) ∧
      (noticeResults t.events).count (st, .skipped) = 0 ∧
      (messages t.events).length + (if t.brokeDown then 1 else 0) = 1 := by
  rw [messages_eq, h.counted]
  cases broke : t.brokeDown with
  | true =>
    have created := (h.brokeDown_iff.1 broke).1
    rw [h.broken broke, created]
    simp [eq_comm]
  | false =>
    obtain ⟨⟨e, r⟩, delivers, sent⟩ := h.handed broke
    have code := Settles.status_code delivers st
    have taken : r ≠ .skipped := delivers.2
    rw [sent]
    by_cases hst : n.status = st
    · cases r <;> simp_all
    · cases r <;> simp_all

theorem counts_of_settles (h : List.Forall₂ d.Settles ns ts) (st : Status) :
    (ts.flatMap fun t => messages t.events).countP (fun e => e.status? = some st.code.toNat) +
        (if st = .created then lost ts else 0) = ns.countP (fun n => n.status = st) ∧
      (ts.flatMap fun t => noticeResults t.events).count (st, .sent) +
          (ts.flatMap fun t => noticeResults t.events).count (st, .failed) =
        (ts.flatMap fun t => messages t.events).countP
          (fun e => e.status? = some st.code.toNat) ∧
      (ts.flatMap fun t => noticeResults t.events).count (st, .skipped) = 0 ∧
      (ts.flatMap fun t => messages t.events).length + lost ts = ns.length := by
  induction h with
  | nil => simp [lost]
  | @cons n t ns ts first _ ih =>
    obtain ⟨told, settled, skipped, all⟩ := first.counts st
    obtain ⟨told', settled', skipped', all'⟩ := ih
    simp only [lost, List.flatMap_cons, List.countP_append, List.count_append, List.length_append,
      List.countP_cons, List.length_cons] at *
    refine ⟨?_, by omega, by omega, by omega⟩
    by_cases created : st = .created <;> simp_all <;> omega

end Dispatcher

section Lists
variable {α κ : Type} [DecidableEq κ]

theorem flatMap_filter_perm (key : α → κ) {keys : List κ} (distinct : keys.Nodup) {l : List α}
    (known : ∀ a ∈ l, key a ∈ keys) :
    (keys.flatMap fun k => l.filter fun a => key a = k).Perm l := by
  induction keys generalizing l with
  | nil =>
    obtain rfl : l = [] := List.eq_nil_iff_forall_not_mem.2 fun a ha => nomatch known a ha
    rfl
  | cons k keys ih =>
    obtain ⟨new, distinct⟩ := List.nodup_cons.1 distinct
    have others : ∀ a ∈ l.filter (fun a => !decide (key a = k)), key a ∈ keys := by
      intro a ha
      obtain ⟨mem, other⟩ := List.mem_filter.1 ha
      exact (List.mem_cons.1 (known a mem)).resolve_left (by simpa using other)
    have rest := ih distinct others
    have same : (keys.flatMap fun k' => (l.filter fun a => !decide (key a = k)).filter
        fun a => key a = k') = keys.flatMap fun k' => l.filter fun a => key a = k' := by
      refine List.flatMap_congr fun k' hk' => ?_
      have apart : k' ≠ k := fun h => new (h ▸ hk')
      rw [List.filter_filter]
      refine List.filter_congr fun a _ => ?_
      by_cases at_k' : key a = k' <;> simp [at_k', apart]
    rw [same] at rest
    exact (rest.append_left _).trans (List.filter_append_perm _ l)

end Lists

section Starts
variable {n : Nat} {ms : List (Move n)} {P : Replicas n}

/-- The programs that were started in the background, each with the tick that started it. -/
def started (ms : List (Move n)) : List (Fin n × Program Unit) :=
  (ms.filterMap Move.ticked?).flatMap fun x => x.2.starts.map (x.1, ·)

def startedBy (i : Fin n) (ms : List (Move n)) (P : Replicas n) : List (Thread Unit) :=
  (((started ms).zip P.jobs).filter fun x => x.1.1 = i).map Prod.snd

abbrev Program.Ran (p : Program Unit) (t : Thread Unit) : Prop :=
  p.Leads anyhow () t.events t.program ()

/-- Where the events and the programs of replicas come from. -/
structure Traced (ms : List (Move n)) (P : Replicas n) : Prop where
  ticks : ∀ i, ((ms.filterMap Move.ticked?).filter fun x => x.1 = i).map Prod.snd =
    (P.ticks i).events
  jobs : List.Forall₂ (fun x t => x.2.Ran t) (started ms) P.jobs

theorem traced_of_reaches {s : Setup} {task : Fin n → Task} {now : Nat} {m : Memory}
    {allowed : Replicas n → Move n → Prop} (run : Reaches (s.together task now m) allowed ms P) :
    Traced ms P := by
  induction run with
  | start => exact ⟨fun _ => rfl, .nil⟩
  | @step ms mv P Q _ _ step ih =>
    cases step with
    | @tick now i e q m _ run =>
      have moved : (Move.mk now (.tick i) e).ticked? = some (i, e) := rfl
      refine ⟨fun k => ?_, ?_⟩
      · rw [Setup.ticked_concat, moved, Option.toList_some, List.filter_append, List.map_append,
          ih.ticks]
        by_cases hk : i = k
        · subst hk
          simp
        · simp [hk, Function.update_of_ne (Ne.symm hk)]
      · rw [started, Setup.ticked_concat, moved, Option.toList_some, List.flatMap_append]
        refine List.rel_append ih.jobs ?_
        rw [List.flatMap_singleton, List.forall₂_map_left_iff, List.forall₂_map_right_iff]
        exact List.forall₂_same.2 fun p _ => .refl p ()
    | @job now j t e q m _ at_j run =>
      have unmoved : (Move.mk (n := n) now (.job j) e).ticked? = none := rfl
      have flipped : List.Forall₂ (flip fun (x : Fin n × Program Unit) t => x.2.Ran t) P.jobs
        (started ms) := ih.jobs.flip
      obtain ⟨x, hx, before⟩ := exists_partner flipped at_j
      have after : x.2.Ran ⟨t.events ++ [e], q⟩ :=
        Program.Leads.trans before (Setup.anyhow_of_leads run)
      refine ⟨fun k => ?_, ?_⟩
      · rw [Setup.ticked_concat, unmoved, Option.toList_none, List.append_nil]
        exact ih.ticks k
      · rw [started, Setup.ticked_concat, unmoved, Option.toList_none, List.append_nil]
        exact forall₂_set_right ih.jobs hx after

theorem Traced.ran_startedBy (h : Traced ms P) (i : Fin n) :
    List.Forall₂ Program.Ran ((P.ticks i).events.flatMap Event.starts) (startedBy i ms P) := by
  obtain ⟨length, ran⟩ := List.forall₂_iff_zip.1 h.jobs
  have firsts : ((started ms).zip P.jobs).map Prod.fst = started ms :=
    List.map_fst_zip (Nat.le_of_eq length)
  have programs : (((started ms).zip P.jobs).filter fun x => x.1.1 = i).map (fun x => x.1.2) =
      (P.ticks i).events.flatMap Event.starts := by
    have own : ((started ms).filter fun x => x.1 = i).map Prod.snd =
        (P.ticks i).events.flatMap Event.starts := by
      rw [← h.ticks, started]
      generalize ms.filterMap Move.ticked? = moves
      induction moves with
      | nil => rfl
      | cons x moves ih =>
        rw [List.flatMap_cons, List.filter_append, List.map_append, ih]
        by_cases hx : x.1 = i
        · simp [hx, List.filter_map, Function.comp_def]
        · simp [hx, List.filter_map, Function.comp_def]
    rw [← own, ← firsts, List.filter_map, List.map_map]
    simp [Function.comp_def, firsts]
  rw [← programs, startedBy, List.forall₂_map_left_iff, List.forall₂_map_right_iff]
  exact List.forall₂_same.2 fun x hx => ran (List.mem_of_mem_filter hx)

theorem mem_jobs_of_startedBy {i : Fin n} {t : Thread Unit} (h : t ∈ startedBy i ms P) :
    t ∈ P.jobs := by
  obtain ⟨x, hx, rfl⟩ := List.mem_map.1 h
  exact (List.of_mem_zip (List.mem_of_mem_filter hx)).2

theorem Traced.ran (h : Traced ms P) :
    List.Forall₂ Program.Ran ((tickEvents ms).flatMap Event.starts) P.jobs := by
  have programs : (started ms).map Prod.snd = (tickEvents ms).flatMap Event.starts := by
    simp [started, tickEvents, List.map_flatMap, List.flatMap_map, Function.comp_def]
  rw [← programs, List.forall₂_map_left_iff]
  exact h.jobs

theorem Traced.tickEvents_perm (h : Traced ms P) :
    ((List.finRange n).flatMap fun i => (P.ticks i).events).Perm (tickEvents ms) := by
  have sorted := (flatMap_filter_perm (fun x : Fin n × Event => x.1) (List.nodup_finRange n)
    (l := ms.filterMap Move.ticked?) fun x _ => List.mem_finRange x.1).map Prod.snd
  rw [List.map_flatMap] at sorted
  simpa only [h.ticks, tickEvents] using sorted

end Starts

theorem sends_of_isRenewal {e : Event} (h : e.request.isRenewal = true) :
    e.sent? = none ∧ e.noticeResult? = none ∧ e.beginsSend = false := by
  obtain ⟨r, x⟩ := e
  cases r with
  | measure _ | send _ | chainIds => cases h
  | _ => exact ⟨rfl, rfl, rfl⟩

/-- Each send that was started is settled, and nothing else in the background has sent, counted or
broken down. -/
theorem settled_of_background {d : Dispatcher} {ns : List Notice} {jobs : List (Thread Unit)}
    (background : Background anyhow d ns jobs) (finished : ∀ t ∈ jobs, t.program.IsRenewal) :
    ∃ ts, ts.Sublist jobs ∧ List.Forall₂ d.Settles ns ts ∧
      (jobs.flatMap fun t => sends t.events) = (ts.flatMap fun t => sends t.events) ∧
      (jobs.flatMap fun t => noticeResults t.events) =
        (ts.flatMap fun t => noticeResults t.events) ∧
      lost jobs = lost ts := by
  induction background with
  | none => exact ⟨[], .slnil, .nil, rfl, rfl, rfl⟩
  | @send n t ns jobs ran _ ih =>
    obtain ⟨ts, among, settled, sent, counted, broke⟩ :=
      ih fun t ht => finished t (List.mem_cons_of_mem _ ht)
    have delivery := ((d.within_deliver n).rest (fun _ h => h.elim) ran).1
    have ended := Dispatcher.eq_done_of_isRenewal ⟨d, delivery⟩ (finished t List.mem_cons_self)
    rw [ended] at ran
    refine ⟨t :: ts, among.cons_cons t,
      .cons ((Dispatcher.delivery_of_leads ran).settles ended) settled, ?_, ?_, ?_⟩
    · rw [List.flatMap_cons, List.flatMap_cons, sent]
    · rw [List.flatMap_cons, List.flatMap_cons, counted]
    · rw [lost, lost, List.countP_cons, List.countP_cons]
      exact congrArg (· + _) broke
  | @renewal t ns jobs renews _ ih =>
    obtain ⟨ts, among, settled, sent, counted, broke⟩ :=
      ih fun t ht => finished t (List.mem_cons_of_mem _ ht)
    have unsent : sends t.events = [] :=
      List.filterMap_eq_nil_iff.2 fun e he => (sends_of_isRenewal (renews e he)).1
    have uncounted : noticeResults t.events = [] :=
      List.filterMap_eq_nil_iff.2 fun e he => (sends_of_isRenewal (renews e he)).2.1
    have unbegun : t.events.any Event.beginsSend = false :=
      List.any_eq_false.2 fun e he => by simp [(sends_of_isRenewal (renews e he)).2.2]
    refine ⟨ts, among.cons t, settled, ?_, ?_, ?_⟩
    · rw [List.flatMap_cons, unsent, List.nil_append, sent]
    · rw [List.flatMap_cons, uncounted, List.nil_append, counted]
    · rw [lost, List.countP_cons_of_neg (by simp [Thread.brokeDown, unbegun])]
      exact broke

namespace Setup

variable {s : Setup} {n : Nat} {task : Fin n → Task} {now : Nat} {m : Memory}
variable {ms : List (Move n)} {P : Replicas n} {allowed : Replicas n → Move n → Prop}
variable {t : Task} {es : List Event}

theorem countP_handed (h : Calls t es) (st : Status) :
    (handed es).countP (fun n => n.status = st) =
      if t.status = st then (rowsOffered es).countP Deposit.isAsset else 0 := by
  have counted := congrArg (List.countP fun x : Deposit × Status => x.2 = st) h.handed
  rw [List.countP_map, List.countP_map] at counted
  refine counted.trans ?_
  split_ifs with own <;> simp [own, Function.comp_def, List.countP_filter]

theorem count_noticeResults (h : Calls t es) (st : Status) (r : NoticeResult) :
    (noticeResults es).count (st, r) =
      if t.status = st ∧ r = .skipped then (rowsOffered es).countP (!·.isAsset) else 0 := by
  rw [h.results, List.count_eq_countP, List.countP_map]
  split_ifs with own
  · obtain ⟨rfl, rfl⟩ := own
    simp [Function.comp_def, List.countP_filter]
  · rw [List.countP_eq_zero]
    intro d _ same
    obtain ⟨rfl, rfl⟩ : t.status = st ∧ NoticeResult.skipped = r := by simpa using same
    exact own ⟨rfl, rfl⟩

def offeredAt (task : Fin n → Task) (P : Replicas n) (st : Status) : List Deposit :=
  (List.finRange n).flatMap fun i =>
    if (task i).status = st then rowsOffered (P.ticks i).events else []

theorem launches_of_leads {σ : Type} {S : Surroundings σ} {u v : σ}
    {p : Program (Except Error Outcome)} (run : (s.tick t).run.Leads S u es p v) :
    sends es = [] ∧ ∀ e ∈ es, ∀ d n, e.request = .launch d n → d = s.dispatcher := by
  have may := requests_of_tick run
  constructor
  · refine List.filterMap_eq_nil_iff.2 fun e he => ?_
    have asked := may e he
    obtain ⟨r, x⟩ := e
    cases r with
    | send _ => exact asked.elim False.elim nofun
    | _ => rfl
  · intro e he d n launch
    have asked := may e he
    rw [launch] at asked
    exact asked.elim And.left nofun

section Totals
variable (traced : Traced ms P) (calls : ∀ i, Calls (task i) (P.ticks i).events)
include traced calls

theorem countP_handed_tickEvents (st : Status) :
    (handed (tickEvents ms)).countP (fun n => n.status = st) =
      (offeredAt task P st).countP Deposit.isAsset := by
  have all := (traced.tickEvents_perm.filterMap Event.notice?).countP_eq (fun n => n.status = st)
  rw [List.filterMap_flatMap, List.countP_flatMap] at all
  rw [handed, ← all, offeredAt, List.countP_flatMap]
  refine congrArg List.sum (List.map_congr_left fun i _ => ?_)
  refine (countP_handed (calls i) st).trans ?_
  dsimp only [Function.comp]
  split_ifs <;> rfl

theorem count_noticeResults_tickEvents (st : Status) (r : NoticeResult) :
    (noticeResults (tickEvents ms)).count (st, r) =
      if r = .skipped then (offeredAt task P st).countP (!·.isAsset) else 0 := by
  have all := (traced.tickEvents_perm.filterMap Event.noticeResult?).count_eq (st, r)
  rw [List.filterMap_flatMap, List.count_flatMap] at all
  rw [noticeResults, ← all, offeredAt, List.countP_flatMap]
  have each : ∀ i, (noticeResults (P.ticks i).events).count (st, r) = _ :=
    fun i => count_noticeResults (calls i) st r
  by_cases hr : r = .skipped
  · rw [if_pos hr]
    refine congrArg List.sum (List.map_congr_left fun i _ => ?_)
    refine (each i).trans ?_
    dsimp only [Function.comp]
    simp only [hr, and_true]
    split_ifs <;> rfl
  · rw [if_neg hr]
    have idle : ∀ i, (noticeResults (P.ticks i).events).count (st, r) = 0 :=
      fun i => (each i).trans (if_neg fun h => hr h.2)
    refine List.sum_eq_zero_iff_forall_eq_nat.2 fun k hk => ?_
    obtain ⟨i, -, rfl⟩ := List.mem_map.1 hk
    exact idle i

omit calls in
theorem launches_of_tickEvents (sound : s.Sound task P) : sends (tickEvents ms) = [] ∧
    ∀ e ∈ tickEvents ms, ∀ d n, e.request = .launch d n → d = s.dispatcher := by
  have ofTick : ∀ e ∈ tickEvents ms, ∃ i, e ∈ (P.ticks i).events := by
    intro e he
    obtain ⟨i, -, hi⟩ := List.mem_flatMap.1 (traced.tickEvents_perm.mem_iff.2 he)
    exact ⟨i, hi⟩
  constructor
  · refine List.filterMap_eq_nil_iff.2 fun e he => ?_
    obtain ⟨i, hi⟩ := ofTick e he
    exact List.filterMap_eq_nil_iff.1 (launches_of_leads (sound.ticks i)).1 e hi
  · intro e he
    obtain ⟨i, hi⟩ := ofTick e he
    exact (launches_of_leads (sound.ticks i)).2 e hi

end Totals

theorem sends_perm (run : Reaches (s.together task now m) allowed ms P) :
    (sends (P.jobs.flatMap Thread.events)).Perm (sends (ms.map Move.event)) := by
  have all : (sends (ms.map Move.event)).Perm (sends (tickEvents ms ++ _)) :=
    (run.events_perm rfl).filterMap Event.sent?
  have unsent := (launches_of_tickEvents (traced_of_reaches run) (Sound.of_reaches run)).1
  rw [sends_append, unsent] at all
  exact all.symm

theorem dispatchCounter_run (run : Reaches (s.together task now m) allowed ms P) (st : Status)
    (r : NoticeResult) : dispatchCounter (ms.map Move.event) st r =
      ((noticeResults (tickEvents ms)).count (st, r) +
        (noticeResults (P.jobs.flatMap Thread.events)).count (st, r) : Nat) := by
  have all : (noticeResults (ms.map Move.event)).Perm (noticeResults (tickEvents ms ++ _)) :=
    (run.events_perm rfl).filterMap Event.noticeResult?
  rw [dispatchCounter_eq, all.count_eq, noticeResults_append, List.count_append]

/-- What ticks did about the rows that they offered, and what has become of it. -/
structure DispatchAccounts (s : Setup) (task : Fin n → Task) (ms : List (Move n)) (P : Replicas n) :
    Prop where
  /-- The dispatcher says that it started a send exactly if it did. -/
  answers : ∀ (n : Notice) (sent : Bool) (es : List Event),
    (s.dispatcher.offer n).Leads anyhow () es (.done sent) () →
      sent = n.deposit.isAsset ∧ handed es = (if sent then [n] else []) ∧
        noticeResults es = if sent then [] else [(n.status, .skipped)]
  /-- Rows are offered one by one as they were read, and all of them if the tick has ended. -/
  calls : ∀ i, Calls (task i) (P.ticks i).events ∧ ((P.ticks i).program.result?.isSome = true →
    rowsOffered (P.ticks i).events = rowsRead (P.ticks i).events)
  /-- Each send that was started has handed over one message, whatever becomes of it, or none if its
  estimate overflows. -/
  once : ∃ ts, ts.Sublist P.jobs ∧
    List.Forall₂ s.dispatcher.Settles (handed (tickEvents ms)) ts ∧
    (ts.flatMap fun t => sends t.events).Perm (sends (ms.map Move.event)) ∧ lost P.jobs = lost ts
  started : ∀ st, (handed (tickEvents ms)).countP (fun n => n.status = st) =
    (offeredAt task P st).countP Deposit.isAsset
  /-- Only sends that tell of a deposit that was just made break down. -/
  told : ∀ st : Status, (messages (ms.map Move.event)).countP (·.status? = some st.code.toNat) +
      (if st = .created then lost P.jobs else 0) =
    (handed (tickEvents ms)).countP fun n => n.status = st
  settled : ∀ st : Status, dispatchCounter (ms.map Move.event) st .sent +
      dispatchCounter (ms.map Move.event) st .failed =
    (messages (ms.map Move.event)).countP (·.status? = some st.code.toNat)
  skipped : ∀ st, dispatchCounter (ms.map Move.event) st .skipped =
    (offeredAt task P st).countP (!·.isAsset)
  /-- An outcome tells the number of messages that came of its tick, and of sends that broke down. -/
  reports : ∀ i start stop k, (P.ticks i).program = .done (.ok (.advanced start stop k)) →
    k = UInt64.ofNat ((messages ((startedBy i ms P).flatMap Thread.events)).length +
      lost (startedBy i ms P))

theorem answers_of_offer {d : Dispatcher} (enabled : d.enabled = true) {n : Notice} {sent : Bool}
    (run : (d.offer n).Leads anyhow () es (.done sent) ()) :
    sent = n.deposit.isAsset ∧ handed es = (if sent then [n] else []) ∧
      noticeResults es = if sent then [] else [(n.status, .skipped)] := by
  unfold Dispatcher.offer at run
  simp only [enabled, Bool.not_true, Bool.false_eq_true, if_false] at run
  cases asset : n.deposit.isAsset with
  | false =>
    simp only [asset, Bool.not_false, if_true] at run
    obtain ⟨es₁, _, w₁, es₂, counted, last, rfl⟩ := Program.Leads.of_bind run
    obtain ⟨rfl, -⟩ := counted.of_request
    obtain ⟨rfl, rfl, -⟩ := last.of_done
    exact ⟨rfl, rfl, rfl⟩
  | true =>
    simp only [asset, Bool.not_true, Bool.false_eq_true, if_false] at run
    obtain ⟨es₁, _, w₁, es₂, launched, last, rfl⟩ := Program.Leads.of_bind run
    obtain ⟨rfl, -⟩ := launched.of_request
    obtain ⟨rfl, rfl, -⟩ := last.of_done
    exact ⟨rfl, rfl, rfl⟩

/-- With a transport, and once nothing but renewals of leases is left in the background, what was
offered, what was started, what was handed over and what was counted come to the same for each
stage, but for the sends whose estimate overflows. Ticks may fail or be left halfway, and messages
may be refused. -/
theorem dispatches_add_up (present : s.transport = true)
    (run : Reaches (s.together task now m) (fun _ _ => True) ms P)
    (finished : ∀ t ∈ P.jobs, t.program.IsRenewal) : s.DispatchAccounts task ms P := by
  have traced := traced_of_reaches run
  have sound := Sound.of_reaches run
  have ticks := fun i => calls_of_leads present (sound.ticks i)
  have calls : ∀ i, Calls (task i) (P.ticks i).events := fun i => (ticks i).1
  obtain ⟨ts, among, settles, sent, counted, broke⟩ :=
    settled_of_background (background_of_starts (launches_of_tickEvents traced sound).2 traced.ran)
      finished
  have counts := Dispatcher.counts_of_settles settles
  have byTicks := count_noticeResults_tickEvents traced calls
  have sends := sends_perm run
  rw [sends_flatMap, sent] at sends
  have told : ∀ st : Status, (messages (ms.map Move.event)).countP
      (·.status? = some st.code.toNat) = (ts.flatMap fun t => messages t.events).countP
        (·.status? = some st.code.toNat) := by
    intro st
    have same := (sends.map Prod.fst).countP_eq (fun e => e.status? = some st.code.toNat)
    rw [← messages_eq, List.map_flatMap] at same
    simpa only [← messages_eq] using same.symm
  have inBackground : ∀ st r, dispatchCounter (ms.map Move.event) st r =
      ((noticeResults (tickEvents ms)).count (st, r) +
        (ts.flatMap fun t => noticeResults t.events).count (st, r) : Nat) := by
    intro st r
    rw [dispatchCounter_run run, noticeResults_flatMap, counted]
  refine { answers := fun n sent es => answers_of_offer present,
           calls := fun i => ⟨calls i, (ticks i).2.1⟩,
           once := ⟨ts, among, settles, sends, broke⟩,
           started := countP_handed_tickEvents traced calls,
           told := fun st => ?_, settled := fun st => ?_, skipped := fun st => ?_,
           reports := fun i start stop k ended => ?_ }
  · rw [told, broke]
    exact (counts st).1
  · rw [inBackground, inBackground, byTicks, byTicks, told, ← (counts st).2.1]
    simp
  · rw [inBackground, byTicks, (counts st).2.2.1]
    simp
  · obtain ⟨own, -, mine, sent, -, broke⟩ :=
      settled_of_background
        (background_of_starts (launches_of_leads (sound.ticks i)).2 (traced.ran_startedBy i))
        fun t ht => finished t (mem_jobs_of_startedBy ht)
    have all := (Dispatcher.counts_of_settles mine .created).2.2.2
    have same : messages ((startedBy i ms P).flatMap Thread.events) =
        own.flatMap fun t => messages t.events := by
      rw [messages_eq, sends_flatMap, sent, List.map_flatMap]
      simp only [← messages_eq]
    rw [(ticks i).2.2 start stop k ended, same, broke, all]

open Simulation

def refusingWorld : World :=
  { World.initial 64 .empty ⟨[⟨1, mainDeposit 7 20, false⟩,
      ⟨2, { mainDeposit 8 21 with leaf := .message }, false⟩,
      ⟨3, mainDeposit 9 22, false⟩], []⟩ with
    transportFailing := true }

def refusedCalls : List (Simulation.Call 1) :=
  ((List.finRange 1).flatMap fun i =>
    List.replicate 15 { actor := .tick i, chain := fun c => { c with head := 100 } }) ++
    List.replicate 6 { actor := .job 1 }

def laterCalls : List (Simulation.Call 1) :=
  ((List.finRange 1).flatMap fun i => List.replicate 15 { actor := .tick i }) ++
    (List.range 3).flatMap fun j => List.replicate 6 { actor := .job j }

def refusedMessage : List (Replicas 1 × Move 1) × Replicas 1 × World :=
  perform refusedCalls (plainSetup.together (fun _ => .maturity) 0 .empty) refusingWorld

def laterMessage : List (Replicas 1 × Move 1) × Replicas 1 × World :=
  perform laterCalls refusedMessage.2.1 { refusedMessage.2.2 with transportFailing := false }

def refusedThenSent : List (Move 1) :=
  refusedMessage.1.map Prod.snd ++ laterMessage.1.map Prod.snd

theorem reaches_refusedThenSent : Reaches (plainSetup.together (fun _ => .maturity) 0 .empty)
    (fun _ _ => True) refusedThenSent laterMessage.2.1 := by
  have first : Reaches (plainSetup.together (fun _ => .maturity) 0 .empty) (fun _ _ => True)
      (refusedMessage.1.map Prod.snd) refusedMessage.2.1 ∧
      refusedMessage.2.1.memory = refusedMessage.2.2.store.memory ∧
      refusedMessage.2.1.now ≤ refusedMessage.2.2.now :=
    reaches_perform refusedCalls .start rfl (Nat.le_refl _) fun _ _ => trivial
  exact (reaches_perform laterCalls (w := { refusedMessage.2.2 with transportFailing := false })
    first.1 first.2.1 first.2.2 fun _ _ => trivial).1

theorem dispatches_add_up_refusedThenSent :
    plainSetup.DispatchAccounts (fun _ => .maturity) refusedThenSent laterMessage.2.1 ∧
    (laterMessage.2.1.ticks 0).program = .done (.ok (.advanced 0 100 2)) ∧
    (messages (refusedThenSent.map Move.event)).countP (·.status? = some 1) = 2 ∧
    dispatchCounter (refusedThenSent.map Move.event) .pendingAutoClaim .sent = 1 ∧
    dispatchCounter (refusedThenSent.map Move.event) .pendingAutoClaim .failed = 1 ∧
    dispatchCounter (refusedThenSent.map Move.event) .pendingAutoClaim .skipped = 1 := by
  have ended : ∀ t ∈ laterMessage.2.1.jobs, t.program.result? = some () := by decide +kernel
  have finished : ∀ t ∈ laterMessage.2.1.jobs, t.program.IsRenewal := by
    intro t ht
    rw [Program.eq_done_of_result? (ended t ht)]
    trivial
  have accounts := dispatches_add_up rfl reaches_refusedThenSent finished
  refine ⟨accounts, Program.eq_done_of_result? (by decide +kernel), ?_, by decide +kernel,
    by decide +kernel, by decide +kernel⟩
  exact (accounts.told .pendingAutoClaim).trans (by decide +kernel)

/-- The average is taken to be the longest span while none is stored. -/
def longestDefault : Setup :=
  ⟨{ commit := { BatchConfig.commitDefault with
      window := { WindowConfig.commitDefault with defaultSecs := 0xFFFFFFFFFFFFFFFF } } }, true⟩

def rollupWorld : World :=
  { World.initial 64 .empty
      ⟨[⟨1, { mainDeposit 7 20 with network := 1, createdMillis := World.someMillis }, false⟩],
        []⟩ with
    store.memory := { Memory.empty with
      ints := Function.update (fun _ => none) (longestDefault.key .depositFeed) (some 0) } }

def brokenSend : List (Replicas 1 × Move 1) × Replicas 1 × World :=
  perform laterCalls (longestDefault.together (fun _ => .feed .deposits) 0
    rollupWorld.store.memory) rollupWorld

/-- The feed says that it dispatched one notice, and nothing was handed over: the estimate of the
longest span cannot be rounded. -/
theorem not_dispatches_add_up : ¬ ∀ (s : Setup) (task : Fin 1 → Task) (now : Nat) (m : Memory)
    (ms : List (Move 1)) (P : Replicas 1), s.config.validate = .ok () → s.transport = true →
    Reaches (s.together task now m) (fun _ _ => True) ms P →
    (∀ t ∈ P.jobs, t.program.IsRenewal) →
    (∀ st : Status, (messages (ms.map Move.event)).countP (·.status? = some st.code.toNat) =
      (handed (tickEvents ms)).countP fun n => n.status = st) ∧
    ∀ i start stop k, (P.ticks i).program = .done (.ok (.advanced start stop k)) →
      k = UInt64.ofNat (messages ((startedBy i ms P).flatMap Thread.events)).length := by
  intro all
  have run : Reaches (longestDefault.together (fun _ => .feed .deposits) 0
      rollupWorld.store.memory) (fun _ _ => True) (brokenSend.1.map Prod.snd) brokenSend.2.1 :=
    (reaches_perform laterCalls .start rfl (Nat.le_refl _) fun _ _ => trivial).1
  have ended : ∀ t ∈ brokenSend.2.1.jobs, t.program.result? = some () := by decide +kernel
  have finished : ∀ t ∈ brokenSend.2.1.jobs, t.program.IsRenewal := by
    intro t ht
    rw [Program.eq_done_of_result? (ended t ht)]
    trivial
  have reported : (brokenSend.2.1.ticks 0).program = .done (.ok (.advanced 0 1 1)) :=
    Program.eq_done_of_result? (by decide +kernel)
  have unsent : (messages ((startedBy 0 (brokenSend.1.map Prod.snd) brokenSend.2.1).flatMap
      Thread.events)).length = 0 := by decide +kernel
  have told := (all _ _ _ _ _ _ (by decide +kernel) rfl run finished).2 0 0 1 1 reported
  rw [unsent] at told
  exact absurd told (by decide)

end Setup
end BridgeNotifier
