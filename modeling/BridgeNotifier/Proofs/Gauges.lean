import BridgeNotifier.Proofs.CheckpointMarks
import BridgeNotifier.Proofs.Deliveries
import BridgeNotifier.Proofs.Transports
import Mathlib.Data.List.Induction
set_option autoImplicit false

namespace BridgeNotifier
open Surroundings Replicas

theorem getLast?_filterMap_concat {α β : Type} (f : α → Option β) (l : List α) (a : α) :
    ((l ++ [a]).filterMap f).getLast? = (f a).or (l.filterMap f).getLast? := by
  rw [List.filterMap_append, List.getLast?_append]
  cases h : f a <;> simp [h]

namespace Metrics

theorem lookup_record (m : Metrics) (x : Measurement) (series : Series) :
    (m.record x).lookup series =
      if series = seriesOf x then some (updated x (m.value series)) else m.lookup series := by
  have looked : ∀ (other : Series) (v : Int) (m : Metrics), List.lookup series ((other, v) :: m) =
      if series = other then some v else m.lookup series := by
    intro other v m
    by_cases h : series = other
    · simp [h]
    · rw [if_neg h, List.lookup_cons, beq_eq_false_iff_ne.2 h]
  induction m with
  | nil =>
    rw [record, looked]
    rfl
  | cons entry m ih =>
    obtain ⟨other, v⟩ := entry
    rw [record]
    split_ifs with own h h
    · rw [looked, if_pos (h.trans own.symm), value, looked, if_pos (h.trans own.symm)]
      rfl
    · rw [looked, looked, if_neg (own ▸ h), if_neg (own ▸ h)]
    · have apart : series ≠ other := fun same => own (same.symm.trans h)
      rw [looked, if_neg apart, ih, if_pos h, value, value, looked, if_neg apart]
    · rw [looked, looked, ih, if_neg h]

theorem seriesOf_checkpoint_iff {w : Watermark} {v : UInt64} {x : Measurement} :
    seriesOf (.checkpoint w v) = seriesOf x ↔ ∃ u, x = .checkpoint w u := by
  constructor
  · intro same
    cases x with
    | checkpoint k u =>
      have names : [w.name] = [k.name] := congrArg Series.values same
      obtain rfl := Watermark.name_injective (List.cons.inj names).1
      exact ⟨u, rfl⟩
    | _ => cases same
  · rintro ⟨u, rfl⟩
    rfl

end Metrics

/-- What a scrape shows of a watermark after some events, if its gauge was ever set. -/
def gauge? (w : Watermark) (es : List Event) : Option Int :=
  ((measured es).foldl Metrics.record []).lookup (Metrics.seriesOf (.checkpoint w 0))

def lastShown? (w : Watermark) (es : List Event) : Option UInt64 :=
  (es.filterMap (Event.shown? w)).getLast?

theorem lastShown?_concat (w : Watermark) (es : List Event) (e : Event) :
    lastShown? w (es ++ [e]) = (e.shown? w).or (lastShown? w es) :=
  getLast?_filterMap_concat _ es e

theorem gauge?_eq (w : Watermark) (es : List Event) :
    gauge? w es = (lastShown? w es).map Metrics.signed := by
  induction es using List.reverseRecOn with
  | nil => rfl
  | append_singleton es e ih =>
    cases told : e.measurement? with
    | none =>
      have unmeasured : measured (es ++ [e]) = measured es := by simp [measured, told]
      have unshown : e.shown? w = none := by
        obtain ⟨q, x⟩ := e
        cases q with
        | measure m => cases told
        | _ => rfl
      rw [gauge?, unmeasured, ← gauge?, ih, lastShown?_concat, unshown, Option.none_or]
    | some m =>
      have added : measured (es ++ [e]) = measured es ++ [m] := by simp [measured, told]
      have shown : e.shown? w = Event.shown? w ⟨.measure m, ()⟩ := by
        obtain ⟨q, x⟩ := e
        cases q with
        | measure m' =>
          obtain rfl := Option.some.inj told
          rfl
        | _ => cases told
      rw [gauge?, added, List.foldl_append, List.foldl_cons, List.foldl_nil, Metrics.lookup_record,
        lastShown?_concat, shown, ← gauge?, ih]
      by_cases own : ∃ u, m = .checkpoint w u
      · obtain ⟨u, rfl⟩ := own
        rw [if_pos (Metrics.seriesOf_checkpoint_iff.2 ⟨u, rfl⟩)]
        simp [Event.shown?, Metrics.updated]
      · rw [if_neg fun same => own (Metrics.seriesOf_checkpoint_iff.1 same)]
        have unshown : Event.shown? w ⟨.measure m, ()⟩ = none := by
          cases m with
          | checkpoint k u => exact if_neg fun same => own ⟨u, by rw [same]⟩
          | _ => rfl
        rw [unshown, Option.none_or]

theorem Metrics.signed_injective : Function.Injective Metrics.signed :=
  fun _ _ same => congrArg Int64.toUInt64 (Int64.toInt_inj.1 same)

theorem Metrics.signed_of_lt {v : UInt64} (h : v < 0x8000000000000000) :
    Metrics.signed v = v.toNat := by
  have small : v.toNat < 2 ^ 63 := by simpa [UInt64.lt_iff_toNat_lt] using h
  have bits : v.toBitVec.toInt = v.toBitVec.toNat :=
    BitVec.toInt_eq_toNat_of_lt (by simpa using by omega)
  exact bits

section LastWrites
variable {n : Nat}

def lastWrite? (key : String) (ms : List (Move n)) : Option (Actor n × UInt64) :=
  (ms.filterMap fun mv => (mv.event.written? key).map (mv.actor, ·)).getLast?

theorem lastWrite?_concat (key : String) (ms : List (Move n)) (mv : Move n) :
    lastWrite? key (ms ++ [mv]) =
      ((mv.event.written? key).map (mv.actor, ·)).or (lastWrite? key ms) :=
  getLast?_filterMap_concat _ ms mv

end LastWrites

namespace Thread

def AtRest {α : Type} (t : Thread α) : Prop :=
  t.events = [] ∨ t.program.result?.isSome = true

instance {α : Type} (t : Thread α) : Decidable t.AtRest :=
  inferInstanceAs (Decidable (_ ∨ _))

end Thread

namespace Setup

variable {s : Setup} {w : Watermark} {n : Nat} {task : Fin n → Task} {i : Fin n} {now : Nat}
variable {m : Memory} {ms : List (Move n)} {P R : Replicas n} {mv : Move n}

/-- A tick moves while the others of its task are at rest, and pages of feeds ascend. -/
structure TakesTurns (task : Fin n → Task) (P : Replicas n) (mv : Move n) : Prop where
  ascends : mv.event.ascends = true
  turns : ∀ i, mv.actor = .tick i → ∀ j, j ≠ i → task j = task i → (P.ticks j).AtRest

theorem spares_of_asks {t : Task} {q : Request} (other : t ≠ w.owner)
    (may : s.asks t q ∨ q.isGuard = true) : s.spares w q := by
  cases q with
  | store c =>
    cases c with
    | setInt key v =>
      have mem : key ∈ s.owned t := may.resolve_right nofun
      rintro rfl
      exact key_not_mem_owned s other mem
    | _ => trivial
  | measure x =>
    cases x with
    | checkpoint k v =>
      have owner : k.owner = t := may.resolve_right nofun
      rintro rfl
      exact other owner.symm
    | _ => trivial
  | _ => trivial

theorem spares_of_delivery {d : Dispatcher} {q : Request} (asks : d.asks q) : s.spares w q := by
  cases q with
  | store c =>
    obtain rfl : c = _ := asks
    trivial
  | measure x =>
    cases x with
    | checkpoint k v => exact asks.elim
    | _ => trivial
  | _ => trivial

theorem spares_of_isRenewal {q : Request} (renews : q.isRenewal = true) : s.spares w q := by
  cases q with
  | store c =>
    cases c with
    | setInt key v => cases renews
    | _ => trivial
  | measure x => cases renews
  | _ => trivial

theorem background_of_reaches {allowed : Replicas n → Move n → Prop}
    (run : Reaches (s.together task now m) allowed ms P) :
    ∀ t ∈ P.jobs, t.program.IsDelivery ∨ t.program.IsRenewal := by
  induction run with
  | start => exact fun t ht => nomatch ht
  | step _ _ step ih =>
    cases step with
    | @tick now i e q m later run =>
      intro t ht
      obtain ht | ht := List.mem_append.1 ht
      · exact ih t ht
      · obtain ⟨p, hp, rfl⟩ := List.mem_map.1 ht
        obtain ⟨q, x⟩ := e
        cases q with
        | launch d notice =>
          obtain rfl := List.mem_singleton.1 hp
          exact .inl ⟨d, d.within_deliver notice⟩
        | hold l =>
          obtain rfl := List.mem_singleton.1 hp
          exact .inr l.within_keep
        | _ => cases hp
    | @job now j u e q m later started run =>
      intro t ht
      obtain ht | rfl := List.mem_or_eq_of_mem_set ht
      · exact ih t ht
      · obtain ⟨d, delivers⟩ | renews := ih u (List.mem_of_getElem? started)
        · exact .inl ⟨d, (delivers.rest (fun _ h => h.elim) run).1⟩
        · exact .inr (renews.rest (fun _ => Loop.within_of_isRenewal) run).1

theorem spares_of_move {allowed : Replicas n → Move n → Prop}
    (run : Reaches (s.together task now m) allowed ms P) (step : P.Step mv R)
    (other : ∀ i, mv.actor = .tick i → task i ≠ w.owner) : s.spares w mv.event.request := by
  have trace := ((Sound.of_reaches run).step step).ticks
  cases step with
  | @tick now i e q m later own =>
    have may := requests_of_tick (trace i) e (by simp)
    exact spares_of_asks (other i rfl) may
  | @job now j u e q m later started own =>
    obtain ⟨d, delivers⟩ | renews := background_of_reaches run u (List.mem_of_getElem? started)
    · exact spares_of_delivery ((delivers.rest (fun _ h => h.elim) own).2 e (by simp))
    · exact spares_of_isRenewal
        ((renews.rest (fun _ => Loop.within_of_isRenewal) own).2 e (by simp))

/-- The last value that was written is in the store, and it is shown if the tick that wrote it shows
it. What is not shown at once is never ahead of the store. -/
structure Agrees (w : Watermark) (P : Replicas n) (last : Option (Actor n × UInt64))
    (shown number : Option UInt64) : Prop where
  written : ∀ actor v, last = some (actor, v) → number = some v ∧
    ∃ i x, actor = .tick i ∧ (P.ticks i).program = .done x ∧ (shown = some v ↔ w.Shows x v)
  behind : w.isPrompt = false → ∀ g, shown = some g → ∃ b, number = some b ∧ g ≤ b

section Agrees
variable {last : Option (Actor n × UInt64)} {shown number : Option UInt64}

theorem Agrees.step (h : Agrees w P last shown number) (step : P.Step mv R) :
    Agrees w R last shown number := by
  refine ⟨fun actor v hv => ?_, h.behind⟩
  obtain ⟨stored, i, x, rfl, ended, shows⟩ := h.written actor v hv
  refine ⟨stored, i, x, rfl, ?_, shows⟩
  rw [step.ticks_of_ne, ended]
  intro mover
  have going := step.result?_eq_none mover
  rw [ended] at going
  cases going

theorem Agrees.closes {ints : String → Option UInt64} {latest : Watermark.Latest}
    {x : Except Error Outcome} (h : Agrees w P last shown number)
    (ended : (P.ticks i).program = .done x)
    (closes : s.Closes w number x (ints, latest)) :
    Agrees w P ((latest.written.map (Actor.tick i, ·)).or last) (latest.shown.or shown)
      (ints (s.key w)) := by
  cases closes with
  | still same unwritten told =>
    have same : ints (s.key w) = number := same
    have unwritten : latest.written = none := unwritten
    rw [unwritten, same]
    cases at_end : latest.shown with
    | none => exact h
    | some g =>
      obtain ⟨prompt, rfl⟩ := told g at_end
      refine ⟨fun actor v hv => ?_, fun hidden => ?_⟩
      · obtain ⟨stored, i, x, rfl, ended, -⟩ := h.written actor v hv
        have shows := Watermark.shows_of_isPrompt prompt x v
        refine ⟨stored, i, x, rfl, ended, fun _ => shows, fun _ => ?_⟩
        rw [stored]
        rfl
      · rw [prompt] at hidden
        cases hidden
  | told value stored both shows =>
    obtain rfl : latest = ⟨some value, some value⟩ := both
    refine ⟨fun actor v hv => ?_, fun _ g hg => ⟨value, stored, ?_⟩⟩
    · cases hv
      exact ⟨stored, i, x, rfl, ended, fun _ => shows, fun _ => rfl⟩
    · cases hg
      exact UInt64.le_refl value
  | hidden value wrote hides =>
    obtain ⟨stored, rfl, later⟩ := wrote
    have slow : w.isPrompt = false := by
      by_contra prompt
      exact hides (Watermark.shows_of_isPrompt (Bool.of_not_eq_false prompt) x value)
    have behind : ∀ g, shown = some g → g < value := by
      intro g hg
      obtain ⟨b, hb, le⟩ := h.behind slow g hg
      exact UInt64.lt_of_le_of_lt le (later b hb)
    refine ⟨fun actor v hv => ?_, fun _ g hg => ⟨value, stored, UInt64.le_of_lt (behind g hg)⟩⟩
    cases hv
    refine ⟨stored, i, x, rfl, ended, fun shows => ?_, fun shows => absurd shows hides⟩
    exact absurd (behind value shows) (UInt64.lt_irrefl value)

end Agrees

/-- A tick has come so far since its watermark agreed. -/
inductive Underway (s : Setup) (w : Watermark) (i : Fin n) (ms : List (Move n)) (P : Replicas n) :
    Prop where
  | since {ints : String → Option UInt64} {last : Option (Actor n × UInt64)}
      {shown : Option UInt64} (before : Agrees w P last shown (ints (s.key w)))
      (trace : (s.tick w.owner).run.Leads (numbers.only fun e => e.ascends = true) ints
        (P.ticks i).events (P.ticks i).program (s.own w.owner P.memory.ints))
      (write : lastWrite? (s.key w) ms =
        ((s.latestOf w (P.ticks i).events).written.map (Actor.tick i, ·)).or last)
      (told : lastShown? w (ms.map Move.event) = (s.latestOf w (P.ticks i).events).shown.or shown)

structure Tracked (s : Setup) (w : Watermark) (task : Fin n → Task) (ms : List (Move n))
    (P : Replicas n) : Prop where
  fresh : ∀ i, (P.ticks i).events = [] → (P.ticks i).program = (s.tick (task i)).run
  still : (∀ i, task i = w.owner → (P.ticks i).AtRest) →
    Agrees w P (lastWrite? (s.key w) ms) (lastShown? w (ms.map Move.event))
      (P.memory.ints (s.key w))
  underway : ∀ i, task i = w.owner → ¬ (P.ticks i).AtRest → s.Underway w i ms P

section Spares
variable (spares : s.spares w mv.event.request)
include spares

theorem lastWrite?_of_spares :
    lastWrite? (s.key w) (ms ++ [mv]) = lastWrite? (s.key w) ms := by
  rw [lastWrite?_concat, written?_of_spares spares]
  rfl

theorem lastShown?_of_spares :
    lastShown? w ((ms ++ [mv]).map Move.event) = lastShown? w (ms.map Move.event) := by
  rw [List.map_append, List.map_singleton, lastShown?_concat, shown?_of_spares spares]
  rfl

theorem Underway.other (h : s.Underway w i ms P) (step : P.Step mv R)
    (mine : R.ticks i = P.ticks i)
    (ints : ∀ key ∈ s.owned w.owner, R.memory.ints key = P.memory.ints key) :
    s.Underway w i (ms ++ [mv]) R := by
  obtain ⟨before, trace, write, told⟩ := h
  refine .since (before.step step) ?_ ?_ ?_
  · rw [mine, own_congr ints]
    exact trace
  · rw [lastWrite?_of_spares spares, mine]
    exact write
  · rw [lastShown?_of_spares spares, mine]
    exact told

end Spares

theorem Underway.step (h : s.Underway w i ms P) (sound : s.Sound task P) (step : P.Step mv R)
    (actor : mv.actor = .tick i) (own : task i = w.owner) (ascends : mv.event.ascends = true) :
    s.Underway w i (ms ++ [mv]) R := by
  obtain ⟨before, trace, write, told⟩ := h
  rw [← own] at trace
  refine .since (before.step step) ?_ ?_ ?_
  · rw [step.events actor, ← own]
    exact trace.trans (leads_own sound step actor ascends)
  · rw [lastWrite?_concat, write, step.events actor, latestOf_concat, actor]
    cases h : mv.event.written? (s.key w) <;> simp [Watermark.Latest.next, h]
  · rw [List.map_append, List.map_singleton, lastShown?_concat, told, step.events actor,
      latestOf_concat]
    cases h : mv.event.shown? w <;> simp [Watermark.Latest.next, h]

theorem Underway.ends {x : Except Error Outcome} (h : s.Underway w i ms P)
    (ended : (P.ticks i).program = .done x) :
    Agrees w P (lastWrite? (s.key w) ms) (lastShown? w (ms.map Move.event))
      (P.memory.ints (s.key w)) := by
  obtain ⟨before, trace, write, told⟩ := h
  rw [ended] at trace
  have mine := own_of_mem (f := P.memory.ints) (key_mem_owned (s := s) w)
  rw [write, told, ← mine]
  exact before.closes ended (closes_of_leads trace)

theorem Tracked.fresh_step (h : s.Tracked w task ms P) (step : P.Step mv R) :
    ∀ i, (R.ticks i).events = [] → (R.ticks i).program = (s.tick (task i)).run := by
  intro i none
  have other : mv.actor ≠ .tick i := by
    intro mover
    rw [step.events mover] at none
    exact absurd none (by simp)
  rw [step.ticks_of_ne other] at none ⊢
  exact h.fresh i none

theorem Tracked.other (h : s.Tracked w task ms P) (sound : s.Sound task P) (step : P.Step mv R)
    (spares : s.spares w mv.event.request)
    (other : ∀ k, mv.actor = .tick k → task k ≠ w.owner) : s.Tracked w task (ms ++ [mv]) R := by
  have ints := ints_of_step sound step other
  have same : ∀ k, task k = w.owner → R.ticks k = P.ticks k := fun k own =>
    step.ticks_of_ne fun actor => other k actor own
  refine ⟨h.fresh_step step, fun rest => ?_, fun i own busy => ?_⟩
  · have agrees := (h.still fun i own => same i own ▸ rest i own).step step
    rw [lastWrite?_of_spares spares, lastShown?_of_spares spares, ints _ (key_mem_owned w)]
    exact agrees
  · rw [same i own] at busy
    exact (h.underway i own busy).other spares step (same i own) ints

theorem Tracked.begun (h : s.Tracked w task ms P) (own : task i = w.owner)
    (going : (P.ticks i).program.result? = none)
    (others : ∀ j, j ≠ i → task j = task i → (P.ticks j).AtRest) : s.Underway w i ms P := by
  by_cases begun : (P.ticks i).events = []
  · have rest : ∀ j, task j = w.owner → (P.ticks j).AtRest := by
      intro j hj
      by_cases same : j = i
      · exact .inl (same ▸ begun)
      · exact others j same (hj.trans own.symm)
    have mine := own_of_mem (f := P.memory.ints) (key_mem_owned (s := s) w)
    refine .since (mine ▸ h.still rest) ?_ ?_ ?_
    · rw [begun, h.fresh i begun, own]
      exact .refl _ _
    · rw [begun]
      rfl
    · rw [begun]
      rfl
  · refine h.underway i own fun rest => ?_
    have ended := rest.resolve_left begun
    rw [going] at ended
    cases ended

theorem Tracked.mine (h : s.Tracked w task ms P) (sound : s.Sound task P) (step : P.Step mv R)
    (actor : mv.actor = .tick i) (own : task i = w.owner) (turn : TakesTurns task P mv) :
    s.Tracked w task (ms ++ [mv]) R := by
  have others := turn.turns i actor
  have underway := h.begun own (step.result?_eq_none actor) others
  have moved := underway.step sound step actor own turn.ascends
  refine ⟨h.fresh_step step, fun rest => ?_, fun j hj busy => ?_⟩
  · have begun : (R.ticks i).events ≠ [] := by
      rw [step.events actor]
      simp
    obtain ⟨x, hx⟩ := Option.isSome_iff_exists.1 ((rest i own).resolve_left begun)
    exact moved.ends (Program.eq_done_of_result? hx)
  · by_cases same : j = i
    · exact same ▸ moved
    · have other : mv.actor ≠ .tick j := fun mover =>
        same (Actor.tick.inj (mover.symm.trans actor))
      rw [step.ticks_of_ne other] at busy
      exact absurd (others j same (hj.trans own.symm)) busy

theorem tracked_of_reaches
    (run : Reaches (s.together task now m) (TakesTurns task) ms P) : s.Tracked w task ms P := by
  induction run with
  | start =>
    refine ⟨fun _ _ => rfl, fun _ => ⟨nofun, fun _ => nofun⟩, fun i _ busy => ?_⟩
    exact absurd (.inl rfl) busy
  | @step ms mv P R before turn step ih =>
    have sound : s.Sound task P := .of_reaches before
    by_cases mine : ∃ i, mv.actor = .tick i ∧ task i = w.owner
    · obtain ⟨i, actor, own⟩ := mine
      exact ih.mine sound step actor own turn
    · have other : ∀ k, mv.actor = .tick k → task k ≠ w.owner := fun k actor own =>
        mine ⟨k, actor, own⟩
      exact ih.other sound step (spares_of_move before step other) other

/-- Once the ticks of its task are over, the gauge of a watermark shows the last value that was
written if and only if the tick that wrote it shows it: not if that is the scanned block, and for a
feed only if the tick reports that it advanced to this value. -/
theorem gauge_shows_iff {actor : Actor n} {v : UInt64}
    (run : Reaches (s.together task now m) (TakesTurns task) ms P)
    (resting : ∀ i, task i = w.owner → (P.ticks i).AtRest)
    (written : lastWrite? (s.key w) ms = some (actor, v)) (small : v < 0x8000000000000000) :
    ∃ i x, actor = .tick i ∧ (P.ticks i).program = .done x ∧
      (gauge? w (ms.map Move.event) = some (v.toNat : Int) ↔ w.Shows x v) := by
  obtain ⟨-, i, x, rfl, ended, shows⟩ :=
    ((tracked_of_reaches run).still resting).written actor v written
  refine ⟨i, x, rfl, ended, ?_⟩
  rw [← shows, gauge?_eq, ← Metrics.signed_of_lt small, ← Option.map_some]
  exact (Option.map_injective Metrics.signed_injective).eq_iff

open Simulation

theorem ascends_reply (w : World) (r : Request) : (Event.mk r (w.reply r).1).ascends = true := by
  cases r with
  | records c =>
    simp only [World.reply, Records.call]
    split
    · cases c <;> rfl
    · split
      · cases c <;> rfl
      · exact Event.ascends_answer _ c
      · exact Event.ascends_answer _ c
  | _ => rfl

theorem ascends_of_nextEvent {α : Type} {depth : Nat} {p q : Program α} {v v' : World} {e : Event}
    (h : nextEvent depth p v = some (e, q, v')) : e.ascends = true := by
  induction depth generalizing p with
  | zero => cases h
  | succ depth ih =>
    cases p with
    | done a => cases h
    | ask r k =>
      cases h
      exact ascends_reply v r
    | call l k => exact ih h

/-- Where the rows come from a table, all pages of feeds ascend. -/
theorem ascends_of_perform (cs : List (Call n)) (P : Replicas n) (v : World) :
    ∀ x ∈ (perform cs P v).1, x.2.event.ascends = true := by
  induction cs generalizing P v with
  | nil => exact fun x mem => nomatch mem
  | cons c cs ih =>
    rw [perform]
    split
    · exact ih P _
    · rename_i e Q v' moved
      refine List.forall_mem_cons.2 ⟨?_, ih Q v'⟩
      cases actor : c.actor with
      | tick i =>
        rw [actor] at moved
        obtain ⟨⟨e', q, v''⟩, next, same⟩ := Option.map_eq_some_iff.1 moved
        cases same
        exact ascends_of_nextEvent next
      | job j =>
        rw [actor] at moved
        obtain ⟨t, -, found⟩ := Option.bind_eq_some_iff.1 moved
        obtain ⟨⟨e', q, v''⟩, next, same⟩ := Option.map_eq_some_iff.1 found
        cases same
        exact ascends_of_nextEvent next

def gaugeTasks : Fin 2 → Task
  | 0 => .feed .deposits
  | 1 => .maturity

/-- The feed announces two pages and the blocks are swept, and the store is out of reach when the
feed is about to store the second page. -/
def gaugeCalls : List (Call 2) :=
  ((List.finRange 2).flatMap fun i =>
    List.replicate 12 { actor := .tick i, chain := fun c => { c with head := 100 } }) ++
    ((List.finRange 2).map fun i => { actor := .tick i, cutOff := true }) ++
    (List.finRange 2).flatMap fun i => List.replicate 9 { actor := .tick i }

def gaugeTicks : List (Replicas 2 × Move 2) × Replicas 2 × World :=
  perform gaugeCalls (onePerPage.together gaugeTasks 0 beforeDeposits)
    { depositWorld with store := { depositWorld.store with memory := beforeDeposits } }

def gaugeMoves : List (Move 2) :=
  gaugeTicks.1.map Prod.snd

theorem reaches_gaugeTicks : Reaches (onePerPage.together gaugeTasks 0 beforeDeposits)
    (TakesTurns gaugeTasks) gaugeMoves gaugeTicks.2.1 := by
  have turns : ∀ x ∈ gaugeTicks.1, ∀ i, x.2.actor = .tick i → ∀ j, j ≠ i →
      gaugeTasks j = gaugeTasks i → (x.1.ticks j).AtRest := by decide +kernel
  exact (reaches_perform gaugeCalls .start rfl (Nat.le_refl _) fun x mem =>
    ⟨ascends_of_perform _ _ _ x mem, turns x mem⟩).1

theorem atRest_gaugeTicks (i : Fin 2) : (gaugeTicks.2.1.ticks i).AtRest := by
  revert i
  decide +kernel

/-- The head is shown. The scanned block is not, and the id after the first page of the feed is not
because its tick failed. -/
theorem gauge_shows_iff_gaugeTicks :
    gauge? .head (gaugeMoves.map Move.event) = some 100 ∧
    lastWrite? (onePerPage.key .scanned) gaugeMoves = some (.tick 1, 36) ∧
    gauge? .scanned (gaugeMoves.map Move.event) ≠ some 36 ∧
    lastWrite? (onePerPage.key .depositFeed) gaugeMoves = some (.tick 0, 1) ∧
    gauge? .depositFeed (gaugeMoves.map Move.event) ≠ some 1 := by
  have head : lastWrite? (onePerPage.key .head) gaugeMoves = some (.tick 1, 100) := by
    decide +kernel
  have scanned : lastWrite? (onePerPage.key .scanned) gaugeMoves = some (.tick 1, 36) := by
    decide +kernel
  have feed : lastWrite? (onePerPage.key .depositFeed) gaugeMoves = some (.tick 0, 1) := by
    decide +kernel
  obtain ⟨-, x, -, -, shows⟩ := gauge_shows_iff (w := .head) reaches_gaugeTicks
    (fun i _ => atRest_gaugeTicks i) head (by decide)
  obtain ⟨-, y, -, -, hides⟩ := gauge_shows_iff (w := .scanned) reaches_gaugeTicks
    (fun i _ => atRest_gaugeTicks i) scanned (by decide)
  obtain ⟨i, z, mover, ended, pending⟩ := gauge_shows_iff (w := .depositFeed) reaches_gaugeTicks
    (fun i _ => atRest_gaugeTicks i) feed (by decide)
  refine ⟨shows.2 (Watermark.shows_of_isPrompt rfl x 100), scanned,
    fun h => Watermark.not_shows_scanned y 36 (hides.1 h), feed, fun h => ?_⟩
  obtain ⟨start, dispatched, rfl⟩ := (pending.1 h).2 .deposits rfl
  obtain rfl : 0 = i := Actor.tick.inj mover
  have failed : ∀ r, (gaugeTicks.2.1.ticks 0).program.result? = some r → r.isOk = false := by
    decide +kernel
  cases failed _ (congrArg Program.result? ended)

/-- The gauges do not always show what was written. -/
theorem not_shown_of_written : ¬ ∀ (s : Setup) (w : Watermark) (n : Nat) (task : Fin n → Task)
    (now : Nat) (m : Memory) (ms : List (Move n)) (P : Replicas n) (actor : Actor n) (v : UInt64),
    Reaches (s.together task now m) (TakesTurns task) ms P →
    (∀ i, task i = w.owner → (P.ticks i).AtRest) →
    lastWrite? (s.key w) ms = some (actor, v) → v < 0x8000000000000000 →
    gauge? w (ms.map Move.event) = some (v.toNat : Int) := by
  intro claim
  have shown := claim onePerPage .scanned 2 gaugeTasks 0 beforeDeposits gaugeMoves gaugeTicks.2.1
    (.tick 1) 36 reaches_gaugeTicks (fun i _ => atRest_gaugeTicks i) (by decide +kernel) (by decide)
  revert shown
  decide +kernel

end Setup
end BridgeNotifier
