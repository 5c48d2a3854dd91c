import BridgeNotifier.Metrics
import BridgeNotifier.Proofs.Successive
set_option autoImplicit false

/-!
# Ticks of two tasks commute

Two ticks of different tasks come to the same in either order: the same outcomes, the same store, the
same values of all series and the same messages. One task reads a number of another, when it estimates
how long a deposit takes, and this shows in one field of the message.
-/
namespace BridgeNotifier
open Surroundings Replicas

namespace Metrics

variable {l l' : List Measurement} {series : Series}

theorem value_foldl (l : List Measurement) (before : Metrics) (series : Series) :
    (l.foldl record before).value series =
      (l.filter fun x => seriesOf x = series).foldl (fun v x => updated x v) (before.value series) := by
  induction l generalizing before with
  | nil => rfl
  | cons x l ih =>
    rw [List.foldl_cons, ih]
    by_cases h : seriesOf x = series
    · rw [List.filter_cons_of_pos (by simpa using h), List.foldl_cons, ← h, value_record_self]
    · rw [List.filter_cons_of_neg (by simpa using h), value_record_of_ne _ _ (Ne.symm h)]

theorem foldl_counter (counter : series.family.isGauge = false)
    (own : ∀ x ∈ l, seriesOf x = series) (v : Int) :
    l.foldl (fun v x => updated x v) v = v + l.length := by
  induction l generalizing v with
  | nil => simp
  | cons x l ih =>
    have one : updated x v = v + 1 := by
      have same := own x List.mem_cons_self
      subst same
      cases x with
      | checkpoint _ _ | average _ _ => cases counter
      | _ => rfl
    rw [List.foldl_cons, ih fun y hy => own y (List.mem_cons_of_mem _ hy), one, List.length_cons]
    omega

/-- For counters the order of measurements does not matter, and for gauges only that of their own. -/
theorem value_eq_of_perm (perm : l'.Perm l)
    (gauges : ∀ series : Series, series.family.isGauge = true →
      (l'.filter fun x => seriesOf x = series) = l.filter fun x => seriesOf x = series)
    (before : Metrics) (series : Series) :
    (l'.foldl record before).value series = (l.foldl record before).value series := by
  rw [value_foldl, value_foldl]
  cases gauge : series.family.isGauge with
  | true => rw [gauges series gauge]
  | false =>
    rw [foldl_counter gauge (by simp), foldl_counter gauge (by simp),
      (perm.filter fun x => seriesOf x = series).length_eq]

end Metrics

namespace Envelope

/-- The messages are the same but for their request ids. Where `estimates` holds, the estimate for a
deposit that was just made may differ as well. -/
def Same (estimates : Prop) (e f : Envelope) : Prop :=
  ∃ bizCode u minutes id id' time, e = .ofUpdate bizCode u id time ∧
    f = .ofUpdate bizCode { u with estimateTime := minutes } id' time ∧
    (minutes = u.estimateTime ∨ estimates ∧ u.status = Status.created.code)

def AllSame (estimates : Prop) (sent sent' : List Envelope) : Prop :=
  ∃ l l' : List Envelope, l.Perm sent ∧ l'.Perm sent' ∧ List.Forall₂ (Same estimates) l l'

end Envelope

section Lists
variable {α β γ : Type} {R : α → β → Prop} {T : α → γ → Prop} {Q : β → γ → Prop}
variable {l l' : List α} {k : List β} {k' : List γ}

theorem exists_append_of_forall₂ (h : List.Forall₂ R (l ++ l') k) :
    ∃ k₁ k₂, List.Forall₂ R l k₁ ∧ List.Forall₂ R l' k₂ ∧ k = k₁ ++ k₂ := by
  induction l generalizing k with
  | nil => exact ⟨[], k, .nil, h, rfl⟩
  | cons a l ih =>
    cases h with
    | cons first rest =>
      obtain ⟨k₁, k₂, left, right, rfl⟩ := ih rest
      exact ⟨_ :: k₁, k₂, .cons first left, right, rfl⟩

theorem forall₂_of_common (h : List.Forall₂ R l k) (h' : List.Forall₂ T l k')
    (both : ∀ a ∈ l, ∀ b ∈ k, ∀ c ∈ k', R a b → T a c → Q b c) : List.Forall₂ Q k k' := by
  induction h generalizing k' with
  | nil =>
    cases h'
    exact .nil
  | cons first rest ih =>
    cases h' with
    | cons first' rest' =>
      exact .cons
        (both _ List.mem_cons_self _ List.mem_cons_self _ List.mem_cons_self first first')
        (ih rest' fun a ha b hb c hc => both a (List.mem_cons_of_mem _ ha) b
          (List.mem_cons_of_mem _ hb) c (List.mem_cons_of_mem _ hc))

end Lists

theorem toldOf_append {ns ns' : List Notice} {told told' : List (Option Envelope)}
    (h : ns.length = told.length) :
    toldOf (ns ++ ns') (told ++ told') = toldOf ns told ++ toldOf ns' told' := by
  rw [toldOf, List.zip_append h, List.flatMap_append]
  rfl

theorem toldOf_eq {R : Envelope → Envelope → Prop} {told told' : List (Option Envelope)}
    (h : List.Forall₂ (Option.Rel R) told told') (ns : List Notice) :
    toldOf ns told' = toldOf ns told := by
  induction h generalizing ns with
  | nil => rfl
  | cons first rest ih =>
    cases ns with
    | nil => rfl
    | cons n ns =>
      rw [toldOf, toldOf, List.zip_cons_cons, List.zip_cons_cons, List.flatMap_cons,
        List.flatMap_cons]
      refine congrArg₂ (· ++ ·) ?_ (ih ns)
      cases first <;> rfl

theorem Envelope.allSame_of_rel {estimates : Prop} {told told' : List (Option Envelope)}
    {sent sent' : List Envelope} (h : List.Forall₂ (Option.Rel (Same estimates)) told told')
    (all : (told.flatMap Option.toList).Perm sent) (all' : (told'.flatMap Option.toList).Perm sent') :
    AllSame estimates sent sent' := by
  refine ⟨_, _, all, all', List.rel_flatMap h fun o o' rel => ?_⟩
  cases rel with
  | none => exact .nil
  | some same => exact .cons same .nil

/-- In both orders the send of a notice comes to the same. If it estimates with a number that may
differ, it has to come to its end in both. -/
theorem Dispatcher.same_of_tells {d : Dispatcher} {a : Stillness} {n : Notice}
    {known known' : String → Option UInt64 → Prop} {estimates : Prop} {o o' : Option Envelope}
    (h : d.Tells a known n o) (h' : d.Tells a known' n o') (whole : estimates → o.isSome ∧ o'.isSome)
    (steady : n.status = .created → estimates ∨
      ∀ v v', known d.commitEstimator.averageKey v → known' d.commitEstimator.averageKey v' → v' = v) :
    Option.Rel (Envelope.Same estimates) o o' := by
  obtain ⟨found, id, hfound, rfl⟩ := h
  obtain ⟨found', id', hfound', rfl⟩ := h'
  have of_eq : d.updateWith a n found' = d.updateWith a n found →
      Option.Rel (Envelope.Same estimates)
        ((d.updateWith a n found).map fun u => .ofUpdate d.bizCode u id a.millis)
        ((d.updateWith a n found').map fun u => .ofUpdate d.bizCode u id' a.millis) := by
    intro same
    rw [same]
    cases d.updateWith a n found with
    | none => exact .none
    | some u => exact .some ⟨_, u, u.estimateTime, id, id', _, rfl, rfl, .inl rfl⟩
  by_cases created : n.status = .created
  · obtain differ | same := steady created
    · obtain ⟨told, told'⟩ := whole differ
      obtain ⟨e, he⟩ := Option.isSome_iff_exists.1 told
      obtain ⟨f, hf⟩ := Option.isSome_iff_exists.1 told'
      obtain ⟨u, hu, rfl⟩ := Option.map_eq_some_iff.1 he
      obtain ⟨u', hu', rfl⟩ := Option.map_eq_some_iff.1 hf
      rw [he, hf]
      obtain ⟨minutes, rfl⟩ := exists_of_updateWith hu
      obtain ⟨minutes', rfl⟩ := exists_of_updateWith hu'
      exact .some ⟨_, _, _, id, id', _, rfl,
        congrArg (Envelope.ofUpdate d.bizCode · id' a.millis) n.update_eq,
        .inr ⟨differ, by rw [Notice.update_status, created]⟩⟩
    · exact of_eq (by rw [same found found' hfound hfound'])
  · exact of_eq (by rw [updateWith_of_ne created, updateWith_of_ne created])

namespace Setup

variable {s : Setup} {a : Stillness} {now : Nat} {m n : Memory} {A B t : Task} {es : List Event}
variable {x y : Except Error Outcome} {ms : List (Move 2)} {P : Replicas 2}

theorem filterMap_work {α : Type} (f : Event → Option α) (es : List Event)
    (quiet : ∀ e : Event, e.request.isGuard = true → f e = none) :
    (work es).filterMap f = es.filterMap f := by
  induction es with
  | nil => rfl
  | cons e es ih =>
    cases guard : e.request.isGuard with
    | true =>
      rw [work, List.filter_cons_of_neg (by simp [guard]), List.filterMap_cons_none (quiet e guard)]
      exact ih
    | false =>
      rw [work, List.filter_cons_of_pos (by simp [guard]), List.filterMap_cons, List.filterMap_cons]
      cases f e with
      | none => exact ih
      | some b => exact congrArg (b :: ·) ih

theorem silent_of_isGuard {e : Event} (h : e.request.isGuard = true) :
    e.measurement? = none ∧ e.notice? = none ∧ e.message? = none := by
  obtain ⟨r, x⟩ := e
  cases r with
  | measure _ | launch _ _ | send _ => cases h
  | _ => exact ⟨rfl, rfl, rfl⟩

theorem measured_work (es : List Event) : measured (work es) = measured es :=
  filterMap_work _ es fun _ guard => (silent_of_isGuard guard).1

theorem handed_work (es : List Event) : handed (work es) = handed es :=
  filterMap_work _ es fun _ guard => (silent_of_isGuard guard).2.1

theorem messages_work (es : List Event) : messages (work es) = messages es :=
  filterMap_work _ es fun _ guard => (silent_of_isGuard guard).2.2

theorem TickRun.asks (run : s.TickRun t a now m es x n) : ∀ e ∈ work es, s.asks t e.request := by
  cases run with
  | locked held idle => simp [idle]
  | swept token free sweep =>
    exact (Program.Within.rest (sweeps_sweep t) (fun _ => sweeps_loop) sweep).2

theorem TickRun.messages_eq (run : s.TickRun t a now m es x n) : messages es = [] := by
  rw [← messages_work]
  refine List.filterMap_eq_nil_iff.2 fun e he => ?_
  have asked := run.asks e he
  obtain ⟨r, z⟩ := e
  cases r with
  | send _ => exact asked.elim
  | _ => rfl

theorem TickRun.launches (run : s.TickRun t a now m es x n) :
    ∀ e ∈ es, ∀ d n, e.request = .launch d n → d = s.dispatcher ∧ n.status = t.status := by
  intro e he d n launch
  have mem : e ∈ work es := List.mem_filter.2 ⟨he, by rw [launch]; rfl⟩
  have asked := run.asks e mem
  rw [launch] at asked
  exact asked

theorem TickRun.status (run : s.TickRun t a now m es x n) : ∀ n ∈ handed es, n.status = t.status := by
  intro n hn
  obtain ⟨⟨r, z⟩, he, launched⟩ := List.mem_filterMap.1 hn
  cases r with
  | launch d n' =>
    obtain rfl := Option.some.inj launched
    exact (run.launches _ he d n' rfl).2
  | _ => cases launched

theorem TickRun.gauges (run : s.TickRun t a now m es x n) : ∀ z ∈ measured es,
    (Metrics.seriesOf z).family.isGauge = true →
      (∃ w v, z = .checkpoint w v ∧ w.owner = t) ∨ ∃ r v, z = .average r v ∧ t = .batch r := by
  intro z hz gauge
  rw [← measured_work] at hz
  obtain ⟨⟨r, u⟩, he, told⟩ := List.mem_filterMap.1 hz
  have asked := run.asks _ he
  cases r with
  | measure z' =>
    obtain rfl := Option.some.inj told
    cases z' with
    | checkpoint w v => exact .inl ⟨w, v, rfl, asked⟩
    | average r v => exact .inr ⟨r, v, rfl, asked⟩
    | _ => cases gauge
  | _ => cases told

theorem gauges_apart {es' : List Event} {m' n' : Memory} (distinct : A ≠ B)
    (run : s.TickRun A a now m es x n) (run' : s.TickRun B a now m' es' y n') {z z' : Measurement}
    (hz : z ∈ measured es) (hz' : z' ∈ measured es')
    (gauge : (Metrics.seriesOf z).family.isGauge = true) :
    Metrics.seriesOf z ≠ Metrics.seriesOf z' := by
  intro same
  have gauge' := gauge
  rw [same] at gauge'
  obtain ⟨w, v, rfl, rfl⟩ | ⟨r, v, rfl, rfl⟩ := run.gauges z hz gauge <;>
    obtain ⟨w', v', rfl, rfl⟩ | ⟨r', v', rfl, rfl⟩ := run'.gauges z' hz' gauge'
  · have names : [w.name] = [w'.name] := congrArg Series.values same
    exact distinct (congrArg Watermark.owner (Watermark.name_injective (List.singleton_inj.1 names)))
  · cases same
  · cases same
  · have names : [r.name] = [r'.name] := congrArg Series.values same
    cases r <;> cases r' <;> first | exact distinct rfl | exact absurd names (by decide)

/-- What two ticks in a row come to, with all that they start. -/
structure Sums (s : Setup) (a : Stillness) (now : Nat) (m : Memory) (A B : Task)
    (x y : Except Error Outcome) (ms : List (Move 2)) (n : Memory) (es es' : List Event)
    (told told' : List (Option Envelope)) : Prop where
  ticks : ∃ l, s.TickRun A a now m es x l ∧ s.TickRun B a now l es' y n
  counts : (measured (ms.map Move.event)).Perm (measured es ++ measured es' ++
    (toldOf (handed es) told ++ toldOf (handed es') told'))
  gauges : ∀ series : Series, series.family.isGauge = true →
    ((measured (ms.map Move.event)).filter fun z => Metrics.seriesOf z = series) =
      (measured es ++ measured es').filter fun z => Metrics.seriesOf z = series
  sends : ((told ++ told').flatMap Option.toList).Perm (messages (ms.map Move.event))
  first : List.Forall₂ (s.dispatcher.Tells a (s.Known A B m)) (handed es) told
  second : List.Forall₂ (s.dispatcher.Tells a (s.Known A B m)) (handed es') told'

theorem gauges_of_ticks {series : Series} (gauge : series.family.isGauge = true)
    (aside : ∀ mv ∈ ms, mv.ticked? = none → mv.event.Aside) :
    ((measured (ms.map Move.event)).filter fun z => Metrics.seriesOf z = series) =
      (measured (tickEvents ms)).filter fun z => Metrics.seriesOf z = series := by
  induction ms with
  | nil => rfl
  | cons mv ms ih =>
    have rest := ih fun mv' h => aside mv' (List.mem_cons_of_mem _ h)
    obtain ⟨instant, actor, e⟩ := mv
    cases actor with
    | tick i =>
      have heard : tickEvents (Move.mk instant (.tick i) e :: ms) = e :: tickEvents ms := rfl
      rw [heard, List.map_cons, measured, measured, List.filterMap_cons, List.filterMap_cons]
      cases e.measurement? with
      | none => exact rest
      | some z =>
        by_cases own : Metrics.seriesOf z = series
        · rw [List.filter_cons_of_pos (by simpa using own), List.filter_cons_of_pos (by simpa using own)]
          exact congrArg (z :: ·) rest
        · rw [List.filter_cons_of_neg (by simpa using own), List.filter_cons_of_neg (by simpa using own)]
          exact rest
    | job j =>
      have unheard : tickEvents (Move.mk (n := 2) instant (.job j) e :: ms) = tickEvents ms := rfl
      have own := (aside _ List.mem_cons_self rfl).reports
      rw [unheard, List.map_cons, measured, List.filterMap_cons]
      cases told : e.measurement? with
      | none => exact rest
      | some z =>
        obtain ⟨status, result, rfl⟩ := own z told
        refine (List.filter_cons_of_neg ?_).trans rest
        rw [decide_eq_true_eq]
        rintro rfl
        cases gauge

theorem Succession.sums (run : s.Succession a now m A B x y ms P) :
    ∃ es es' told told', s.Sums a now m A B x y ms P.memory es es' told told' ∧
      ((∀ t ∈ P.jobs, t.brokeDown = false) → ∀ o ∈ told ++ told', o.isSome = true) := by
  have progress := progress_of_reaches run.reaches
  have events := run.reaches.events_perm rfl
  obtain ⟨l, first, second⟩ := progress.stage.runs
  rw [run.first] at first
  rw [run.second] at second
  have tickA := tickRun first
  have tickB := tickRun second
  have launches : ∀ e ∈ bothEvents P.ticks, ∀ d n, e.request = .launch d n → d = s.dispatcher := by
    intro e he d n launch
    rw [bothEvents_eq] at he
    obtain he | he := List.mem_append.1 he
    · exact (tickA.launches e he d n launch).1
    · exact (tickB.launches e he d n launch).1
  obtain ⟨both, tells, sent, counts, whole⟩ :=
    sent_in_background ⟨_, fun _ _ => rfl⟩ (background_of_starts launches progress.jobs)
      run.background
  have handed_both : handed (bothEvents P.ticks) =
      handed (P.ticks 0).events ++ handed (P.ticks 1).events := by
    rw [bothEvents_eq]
    exact List.filterMap_append
  rw [handed_both] at tells counts
  obtain ⟨told, told', tellsA, tellsB, rfl⟩ := exists_append_of_forall₂ tells
  rw [toldOf_append tellsA.length_eq] at counts
  refine ⟨(P.ticks 0).events, (P.ticks 1).events, told, told',
    ⟨⟨l, tickA, tickB⟩, ?_, ?_, ?_, tellsA, tellsB⟩, whole⟩
  · have all := events.filterMap Event.measurement?
    rw [progress.heard, bothEvents_eq, List.filterMap_append, List.filterMap_append,
      List.filterMap_flatMap] at all
    exact all.trans (List.Perm.of_eq (congrArg (_ ++ ·) counts))
  · intro series gauge
    rw [gauges_of_ticks gauge progress.aside, progress.heard, bothEvents_eq, measured,
      List.filterMap_append]
    rfl
  · have all := events.filterMap Event.message?
    have silent : (tickEvents ms).filterMap Event.message? = [] := by
      rw [progress.heard, bothEvents_eq, List.filterMap_append]
      exact congrArg₂ (· ++ ·) tickA.messages_eq tickB.messages_eq
    rw [List.filterMap_append, silent, List.nil_append, List.filterMap_flatMap] at all
    exact sent ▸ all.symm

/-- The one task estimates with the number that the other one writes. -/
def Estimates (A B : Task) : Prop :=
  A = .batch .commit ∧ B = .feed .deposits ∨ A = .feed .deposits ∧ B = .batch .commit

theorem eq_commit_of_mem_owned (h : s.dispatcher.commitEstimator.averageKey ∈ s.owned t) :
    t = .batch .commit := by
  by_contra other
  have own : s.dispatcher.commitEstimator.averageKey ∈ s.owned (.batch .commit) :=
    List.mem_cons_of_mem _ (List.mem_cons_of_mem _ List.mem_cons_self)
  exact not_mem_owned other h own

theorem eq_deposits_of_created (h : t.status = .created) : t = .feed .deposits := by
  rcases t with _ | (_ | _) | (_ | _)
  case feed.deposits => rfl
  all_goals cases h

theorem steady_of_known (created : t.status = .created) (either : t = A ∨ t = B) :
    Estimates A B ∨ ∀ v v', s.Known A B m s.dispatcher.commitEstimator.averageKey v →
      s.Known B A m s.dispatcher.commitEstimator.averageKey v' → v' = v := by
  obtain rfl := eq_deposits_of_created created
  by_cases hA : s.dispatcher.commitEstimator.averageKey ∈ s.owned A
  · obtain rfl := eq_commit_of_mem_owned hA
    obtain h | rfl := either
    · cases h
    · exact .inl (.inl ⟨rfl, rfl⟩)
  · by_cases hB : s.dispatcher.commitEstimator.averageKey ∈ s.owned B
    · obtain rfl := eq_commit_of_mem_owned hB
      obtain rfl | h := either
      · exact .inl (.inr ⟨rfl, rfl⟩)
      · cases h
    · exact .inr fun _ _ known known' => (known' hB hA).trans (known hA hB).symm

def measurements (A B : Task) (x y : Except Error Outcome) (ms : List (Move 2)) : List Measurement :=
  measured (ms.map Move.event) ++ (A.report x ++ B.report y)

theorem report_counts (t : Task) (r : Except Error Outcome) :
    ∀ z ∈ t.report r, (Metrics.seriesOf z).family.isGauge = false := by
  cases r <;> simp [Task.report, Metrics.seriesOf, Family.isGauge]

theorem filter_report {series : Series} (gauge : series.family.isGauge = true) (t : Task)
    (r : Except Error Outcome) : ((t.report r).filter fun z => Metrics.seriesOf z = series) = [] := by
  refine List.filter_eq_nil_iff.2 fun z hz own => ?_
  have counter := report_counts t r z hz
  rw [of_decide_eq_true own, gauge] at counter
  cases counter

variable {x' y' : Except Error Outcome} {ms' : List (Move 2)} {es' fs fs' : List Event}
variable {n' : Memory} {told told' tell tell' : List (Option Envelope)}

theorem Sums.gauge_eq {series : Series} (distinct : A ≠ B) (gauge : series.family.isGauge = true)
    (sums : s.Sums a now m A B x y ms n es es' told told')
    (sums' : s.Sums a now m B A y' x' ms' n' fs fs' tell tell')
    (sameA : measured fs' = measured es) (sameB : measured fs = measured es') :
    ((measurements B A y' x' ms').filter fun z => Metrics.seriesOf z = series) =
      (measurements A B x y ms).filter fun z => Metrics.seriesOf z = series := by
  obtain ⟨l, tickA, tickB⟩ := sums.ticks
  simp only [measurements, List.filter_append, filter_report gauge, List.append_nil,
    sums.gauges series gauge, sums'.gauges series gauge, sameA, sameB]
  -- if the one task sets the gauge, the other one does not
  cases own : (measured es).filter fun z => Metrics.seriesOf z = series with
  | nil => rw [List.append_nil, List.nil_append]
  | cons z zs =>
    obtain ⟨hz, sz⟩ := List.mem_filter.1 (own ▸ List.mem_cons_self : z ∈ _)
    have none : ((measured es').filter fun z => Metrics.seriesOf z = series) = [] := by
      refine List.filter_eq_nil_iff.2 fun z' hz' sz' => ?_
      have zGauge : (Metrics.seriesOf z).family.isGauge = true := by rwa [of_decide_eq_true sz]
      exact gauges_apart distinct tickA tickB hz hz' zGauge
        ((of_decide_eq_true sz).trans (of_decide_eq_true sz').symm)
    rw [none, List.append_nil, List.nil_append]

/-- Ticks of two tasks of a valid configuration commute, while chains, tables, live values and clocks
stand still and no call fails. The tick of `B` and then that of `A` can be run to their ends if the
tick of `A` and then that of `B` can, and whatever is done in the background meanwhile, they come to
the same outcomes, the same store, the same values of all series and the same messages. If the one
task estimates with what the other writes, this goes for sends that do not break down. -/
theorem ticks_commute (valid : s.config.validate = .ok ()) (distinct : A ≠ B)
    (run : s.Succession a now m A B x y ms P) :
    (∃ ms' P', s.Succession a now m B A y x ms' P') ∧
    ∀ x' y' ms' P', s.Succession a now m B A y' x' ms' P' →
      (x' = x ∧ y' = y) ∧ P'.memory = P.memory ∧
      ((Estimates A B → ∀ t ∈ P.jobs ++ P'.jobs, t.brokeDown = false) →
        (∀ (before : Metrics) (series : Series),
          ((measurements B A y' x' ms').foldl Metrics.record before).value series =
            ((measurements A B x y ms).foldl Metrics.record before).value series) ∧
        Envelope.AllSame (Estimates A B) (messages (ms.map Move.event))
          (messages (ms'.map Move.event))) := by
  have apart := apart_of_valid valid distinct
  obtain ⟨es, es', told, told', sums, whole⟩ := run.sums
  obtain ⟨l, tickA, tickB⟩ := sums.ticks
  constructor
  · obtain ⟨n₁, n₂, tickB', tickA'⟩ := tickA.exchange apart tickB
    exact exists_succession tickB' tickA'
  · intro x' y' ms' P' run'
    obtain ⟨fs, fs', tellB, tellA, sums', whole'⟩ := run'.sums
    obtain ⟨l', tickB', tickA'⟩ := sums'.ticks
    obtain ⟨⟨workA, rfl⟩, ⟨workB, rfl⟩, memory⟩ := tickA.commute apart tickB tickB' tickA'
    refine ⟨⟨rfl, rfl⟩, memory, fun ended => ?_⟩
    have measuredA : measured fs' = measured es := by
      rw [← measured_work fs', workA, measured_work]
    have measuredB : measured fs = measured es' := by
      rw [← measured_work fs, workB, measured_work]
    have handedA : handed fs' = handed es := by rw [← handed_work fs', workA, handed_work]
    have handedB : handed fs = handed es' := by rw [← handed_work fs, workB, handed_work]
    have tellsA := sums'.second
    have tellsB := sums'.first
    rw [handedA] at tellsA
    rw [handedB] at tellsB
    have wholeA (differ : Estimates A B) : ∀ o ∈ told ++ told', o.isSome = true :=
      whole fun t ht => ended differ t (List.mem_append_left _ ht)
    have wholeB (differ : Estimates A B) : ∀ o ∈ tellB ++ tellA, o.isSome = true :=
      whole' fun t ht => ended differ t (List.mem_append_right _ ht)
    have sameA : List.Forall₂ (Option.Rel (Envelope.Same (Estimates A B))) told tellA :=
      forall₂_of_common sums.first tellsA fun n hn o ho o' ho' tells tells' =>
        Dispatcher.same_of_tells tells tells'
          (fun differ => ⟨wholeA differ o (List.mem_append_left _ ho),
            wholeB differ o' (List.mem_append_right _ ho')⟩)
          fun created => steady_of_known ((tickA.status n hn).symm.trans created) (.inl rfl)
    have sameB : List.Forall₂ (Option.Rel (Envelope.Same (Estimates A B))) told' tellB :=
      forall₂_of_common sums.second tellsB fun n hn o ho o' ho' tells tells' =>
        Dispatcher.same_of_tells tells tells'
          (fun differ => ⟨wholeA differ o (List.mem_append_right _ ho),
            wholeB differ o' (List.mem_append_left _ ho')⟩)
          fun created => steady_of_known ((tickB.status n hn).symm.trans created) (.inr rfl)
    constructor
    · intro before series
      refine Metrics.value_eq_of_perm ?_ (fun series gauge =>
        sums.gauge_eq distinct gauge sums' measuredA measuredB) before series
      have counts := sums'.counts
      rw [measuredA, measuredB, handedA, handedB, toldOf_eq sameA, toldOf_eq sameB] at counts
      have swapped := counts.trans (List.perm_append_comm.append List.perm_append_comm)
      exact (swapped.trans sums.counts.symm).append List.perm_append_comm
    · refine Envelope.allSame_of_rel (List.rel_append sameA sameB) sums.sends
        (.trans ?_ sums'.sends)
      rw [List.flatMap_append, List.flatMap_append]
      exact List.perm_append_comm

open Simulation

def announcingWorld : World :=
  { depositWorld with
    chain := { depositWorld.chain with head := 100 }
    store := { depositWorld.store with
      memory := { Memory.empty with
        ints := Function.update (fun _ => none) (plainSetup.key .depositFeed) (some 0) } } }

def announcing : Stillness where
  chain c := if c = .head then 100 else 0
  table := twoDeposits
  depth := 64
  chainIds := .empty
  sampleClock := 0
  millis := World.someMillis

def oneAfterAnother : List (Simulation.Call 2) :=
  ((List.finRange 2).flatMap fun i => List.replicate 20 { actor := .tick i }) ++
    (List.range 6).flatMap fun j => List.replicate 8 { actor := .job j }

def announcedTwice : List (Replicas 2 × Move 2) × Replicas 2 × World :=
  perform oneAfterAnother (plainSetup.together ![.maturity, .feed .deposits] 0
    announcingWorld.store.memory) announcingWorld

theorem successive_announcedTwice :
    ∀ x ∈ announcedTwice.1, announcing.successive 0 x.1 x.2 := by
  unfold Stillness.successive
  decide +kernel

theorem succession_announcedTwice : plainSetup.Succession announcing 0 announcingWorld.store.memory
    .maturity (.feed .deposits) (.ok (.advanced 0 100 2)) (.ok (.advanced 0 2 2))
    (announcedTwice.1.map Prod.snd) announcedTwice.2.1 where
  reaches := (reaches_perform oneAfterAnother .start rfl (Nat.le_refl _)
    successive_announcedTwice).1
  first := Program.eq_done_of_result? (by decide +kernel)
  second := Program.eq_done_of_result? (by decide +kernel)
  background := by
    have ended : ∀ t ∈ announcedTwice.2.1.jobs, t.program.result? = some () := by decide +kernel
    exact fun t ht => Program.eq_done_of_result? (ended t ht)

theorem ticks_commute_announcedTwice : ∃ ms P,
    plainSetup.Succession announcing 0 announcingWorld.store.memory (.feed .deposits) .maturity
      (.ok (.advanced 0 2 2)) (.ok (.advanced 0 100 2)) ms P ∧
    P.memory.ints (plainSetup.key .head) = some 100 ∧
    P.memory.ints (plainSetup.key .depositFeed) = some 2 ∧
    Envelope.AllSame (Estimates .maturity (.feed .deposits))
      (messages ((announcedTwice.1.map Prod.snd).map Move.event)) (messages (ms.map Move.event)) ∧
    (messages ((announcedTwice.1.map Prod.snd).map Move.event)).length = 4 := by
  obtain ⟨⟨ms, P, run⟩, others⟩ :=
    ticks_commute (by decide +kernel) (by decide) succession_announcedTwice
  obtain ⟨-, memory, sums⟩ := others _ _ ms P run
  obtain ⟨-, same⟩ := sums (by rintro (⟨⟨⟩, -⟩ | ⟨⟨⟩, -⟩))
  exact ⟨ms, P, run, memory ▸ (by decide +kernel), memory ▸ (by decide +kernel), same,
    by decide +kernel⟩

end Setup
end BridgeNotifier
