import BridgeNotifier.Proofs.IdleTicks
set_option autoImplicit false

namespace BridgeNotifier
open RecordTable

/-- Answers from which a tick cannot tell where a chain or a table ends: full pages, scans, single
deposits and the depth. -/
def Event.isInconclusive : Event → Bool
  | ⟨.records (.depositsAfter _ size), .ok rows⟩ => rows.length = size.toNat
  | ⟨.records (.claimsAfter _ size), .ok rows⟩ => rows.length = size.toNat
  | ⟨.records (.maturing ..), _⟩ | ⟨.records (.deposit ..), _⟩ | ⟨.depth, _⟩ => true
  | _ => false

namespace Answers

/-- The chain answers so, and so does the table where it ends; until then it may still change. -/
def atLast (a : Answers) (e : Event) : Prop :=
  e.isInconclusive = true ∨ a.agrees e

instance (a : Answers) : DecidablePred a.atLast :=
  fun _ => inferInstanceAs (Decidable (_ ∨ _))

end Answers

namespace Setup
open Routine Surroundings

variable {s : Setup} {a : Answers} {t : Task} {w : (String → Option UInt64) × Unit}

def Beyond (s : Setup) (k : Watermark) (value : UInt64) (w : (String → Option UInt64) × Unit) :
    Prop :=
  ∃ x, w.1 (s.key k) = some x ∧ value ≤ x

def settling (s : Setup) (a : Answers) (t : Task) :
    Contract ((String → Option UInt64) × Unit) where
  needs
    | .scan .., _ => True
    | .feed s' f last _, w => s' = s ∧ t = .feed f ∧ s.Beyond f.watermark last w
    | _, _ => False
  gives
    | .feed .., _, r, v =>
      Ends (fun _ _ => True) (fun _ v => a.Settled t (v.1 (s.key t.stop))) r v
    | _, _, _, _ => True

section Settling
variable {k : Watermark} {value : UInt64} {Q : (String → Option UInt64) × Unit → Prop}

theorem moves_reach (h : ∀ u : (String → Option UInt64) × Unit, value ≤ (u.1 (s.key k)).getD 0 →
      ((w.1 (s.key k)).isSome = true → s.Beyond k value u) → Q u) :
    Shows.Moves (numbered a.atLast) Prod.fst (fun _ => True) (s.key k) value w Q := by
  refine ⟨fun le => h w le fun set => ?_, fun _ u hu => ⟨trivial, ?_⟩⟩
  · obtain ⟨x, hx⟩ := Option.isSome_iff_exists.1 set
    exact ⟨x, hx, by rwa [hx] at le⟩
  · have written : u.1 (s.key k) = some value := by
      rw [numbered_shows.write hu, Function.update_self]
    exact h u (by rw [written]; exact UInt64.le_refl value) fun _ =>
      ⟨value, written, UInt64.le_refl value⟩

theorem settling_scan {sc : Scan} {Q : ScanSummary → (String → Option UInt64) × Unit → Prop}
    (h : ∀ summary v, Q summary v) :
    sc.run.Ensures (numbered a.atLast) (fun _ => True) (settling s a t) (fun _ _ => True) w Q := by
  unfold Scan.run
  split
  · exact ensures_pure (h _ w)
  · exact ⟨trivial, fun _ v _ _ => Contract.ends_of_forall fun summary => h summary v⟩

theorem settling_sweepMaturity :
    s.sweepMaturity.Ensures (numbered a.atLast) (fun _ => True) (settling s a .maturity)
      (fun _ _ => True) w fun _ v => a.Settled .maturity (v.1 (s.key .head)) := by
  refine numbered_shows.ensures_sweepMaturity_of_head trivial ?_ ?_
  · intro newHead answered le
    obtain rfl : newHead = a.chain .head := answered.1.1.resolve_left nofun
    exact le
  · intro newHead depth u answered _ _
    obtain rfl : newHead = a.chain .head := answered.1.1.resolve_left nofun
    have headed : ∀ v, Shows.Moves (numbered a.atLast) Prod.fst (fun _ => True) (s.key .head)
        (a.chain .head) v fun z => a.Settled .maturity (z.1 (s.key .head)) :=
      fun v => moves_reach fun z le _ => le
    refine ⟨trivial, ?_⟩
    generalize matured? _ _ depth _ = window
    cases window with
    | none => exact headed u
    | some range => exact settling_scan fun _ v => moves_reach fun z _ _ => headed z

theorem settling_sweepBatch {r : Role} :
    (s.sweepBatch r).Ensures (numbered a.atLast) (fun _ => True) (settling s a (.batch r))
      (fun _ _ => True) w fun _ v => a.Settled (.batch r) (v.1 (s.key r.batch)) := by
  have settled : ∀ newCeiling u, Shows.Settles (numbered a.atLast) Prod.fst (fun _ => True) s r
      newCeiling (a.chain r.latest) u fun v => a.Settled (.batch r) (v.1 (s.key r.batch)) := by
    refine fun newCeiling u => moves_reach fun v _ _ => moves_reach fun z le _ => ⟨le, ?_⟩
    intro average y hy
    have same : y.1 (s.key r.batch) = z.1 (s.key r.batch) := by
      rw [numbered_shows.write hy, Function.update_of_ne (s.averageKey_ne_key r r.batch).symm _ _]
    have settled : a.Settled (.batch r) (y.1 (s.key r.batch)) := by
      rw [same]
      exact le
    exact ⟨trivial, settled⟩
  refine numbered_shows.ensures_sweepBatch_of_latest trivial ?_ ?_ ?_
  · intro latest answered le
    obtain rfl : latest = a.chain r.latest := answered.1.1.resolve_left nofun
    exact le
  · intro latest newCeiling answered _ _ _
    obtain rfl : latest = a.chain r.latest := answered.1.1.resolve_left nofun
    exact settling_scan fun _ u => settled newCeiling u
  · intro latest newCeiling answered _ _ _
    obtain rfl : latest = a.chain r.latest := answered.1.1.resolve_left nofun
    exact settled newCeiling w

end Settling

section Feeds
variable {f : Feed} {last dispatched : UInt64}

theorem settling_follows {α : Type} {rows : List (UInt64 × α)} (kept : a.table.WellKept)
    (begun : s.Beyond f.watermark last w)
    (hrows : rows.length = s.pageSize.toNat ∨
      rows.map Prod.fst = ((f.ids a.table).filter (last < ·)).take s.pageSize.toNat)
    (sent : UInt64) :
    Shows.Follows (numbered a.atLast) Prod.fst (fun _ => True) (settling s a (.feed f))
      (fun _ _ => True) s f ⟨UInt64.ofNat rows.length, rows.getLast?.map Prod.fst, sent⟩ dispatched
      last w (fun _ v => a.Settled (.feed f) (v.1 (s.key f.watermark)))
      (rows.getLast?.map Prod.fst) := by
  have length : rows.length ≤ s.pageSize.toNat := by
    obtain full | answer := hrows
    · exact Nat.le_of_eq full
    · rw [← List.length_map Prod.fst, answer]
      exact List.length_take_le _ _
  have atEnd : rows.length < s.pageSize.toNat →
      rows.map Prod.fst = ((f.ids a.table).filter (last < ·)).take s.pageSize.toNat :=
    fun short => hrows.resolve_left (Nat.ne_of_lt short)
  cases hi : rows.getLast?.map Prod.fst with
  | none =>
    have empty : rows = [] := by simpa using hi
    have short : rows.length < s.pageSize.toNat := by
      rw [empty]
      exact s.pageSize_pos
    obtain ⟨x, mark, le⟩ := begun
    simp only [Shows.Follows, Shows.GoesOn, if_pos ((short_iff length).2 short)]
    have all := page_empty (atEnd short) s.pageSize_pos empty
    exact ⟨x, mark, fun id hid => UInt64.le_trans (all id hid) le⟩
  | some id =>
    unfold Shows.Follows
    refine moves_reach fun u _ reached => ?_
    obtain ⟨x, mark, le⟩ := reached (by obtain ⟨x, mark, -⟩ := begun; rw [mark]; rfl)
    unfold Shows.GoesOn
    split
    · next short =>
      have short := (short_iff length).1 short
      have all := page_exhausts (Feed.ids_sorted kept) (atEnd short) short hi
      exact ⟨x, mark, fun i hid => UInt64.le_trans (all i hid) le⟩
    · refine ⟨⟨rfl, rfl, x, mark, le⟩, fun r v _ hv => ?_⟩
      cases r with
      | ok y => exact hv
      | error e => exact hv

theorem settling_feedRound (kept : a.table.WellKept) (begun : s.Beyond f.watermark last w) :
    (s.feedRound f last dispatched).Ensures (numbered a.atLast) (fun _ => True)
      (settling s a (.feed f)) (fun _ _ => True) w
      fun _ v => a.Settled (.feed f) (v.1 (s.key f.watermark)) := by
  have hS : (numbered a.atLast).Shows Prod.fst fun _ _ => True := numbered_shows
  refine hS.ensures_feedRound trivial ?_
  cases f with
  | deposits =>
    refine Shows.ensures_depositPage fun x u hu => ?_
    obtain rfl := numbered_still hu nofun
    refine ⟨trivial, ?_⟩
    cases x with
    | error e => trivial
    | ok rows =>
      have hrows := hu.1.1.imp of_decide_eq_true fun answer =>
        (congrArg (List.map Prod.fst) answer).trans (deposit_ids a.table last s.pageSize)
      refine (hS.ensures_offerAll_of_silent (numbered_still · nofun) trivial).mono ?_
      rintro sent u rfl
      exact settling_follows kept begun hrows sent
  | claims =>
    refine Shows.ensures_claimPage fun x u hu => ?_
    obtain rfl := numbered_still hu nofun
    refine ⟨trivial, ?_⟩
    cases x with
    | error e => trivial
    | ok rows =>
      have hrows := hu.1.1.imp of_decide_eq_true fun answer =>
        (congrArg (List.map Prod.fst) answer).trans (claim_ids a.table last s.pageSize)
      refine Routine.Ensures.mono
        (hS.ensures_announceClaims (J := fun _ v => v = u) ?_ trivial rfl) ?_
      · rintro id c rest v - rfl x z hz
        obtain rfl := numbered_still hz nofun
        refine ⟨trivial, Contract.ends_of_forall fun o => ⟨fun _ => rfl, fun d _ =>
          ⟨fun _ => rfl, fun _ y hy => ⟨trivial, numbered_still hy nofun⟩⟩⟩⟩
      · rintro sent v rfl
        exact settling_follows kept begun hrows sent

theorem settling_sweepFeed :
    (s.sweepFeed f).Ensures (numbered a.atLast) (fun _ => True) (settling s a (.feed f))
      (fun _ _ => True) w fun _ v => a.Settled (.feed f) (v.1 (s.key f.watermark)) := by
  have hS : (numbered a.atLast).Shows Prod.fst fun _ _ => True := numbered_shows
  refine hS.ensures_sweepFeed trivial (fun unset => ?_) fun start set => ?_
  · have seeded : ∀ {latest : UInt64}, latest = largest (f.ids a.table) →
        ((w.1 (s.key f.watermark)).isSome = true →
          a.Settled (.feed f) (w.1 (s.key f.watermark))) ∧
        (w.1 (s.key f.watermark) = none → Shows.Writes (numbered a.atLast) (fun _ => True)
          (s.key f.watermark) latest w fun v => a.Settled (.feed f) (v.1 (s.key f.watermark))) := by
      rintro _ rfl
      refine ⟨fun set => ?_, fun _ u hu => ⟨trivial, _, ?_, fun id => le_largest⟩⟩
      · rw [unset] at set
        cases set
      · rw [hS.write hu, Function.update_self]
    cases f with
    | deposits =>
      refine ensures_records fun x u hu => ?_
      obtain rfl := numbered_still hu nofun
      refine ⟨trivial, ?_⟩
      cases x with
      | error e => trivial
      | ok latest => exact seeded (hu.1.1.resolve_left nofun)
    | claims =>
      refine ensures_records fun x u hu => ?_
      obtain rfl := numbered_still hu nofun
      refine ⟨trivial, ?_⟩
      cases x with
      | error e => trivial
      | ok latest => exact seeded (hu.1.1.resolve_left nofun)
  · refine ⟨⟨rfl, rfl, start, set, UInt64.le_refl start⟩, fun r v _ hv => ?_⟩
    cases r with
    | ok y => exact hv
    | error e => exact hv

end Feeds

theorem settling_kept (kept : a.table.WellKept) :
    (settling s a t).Kept (numbered a.atLast) fun _ => True := by
  rintro (⟨sc, offset, summary⟩ | ⟨s', f, last, dispatched⟩ | ⟨l, deadline⟩ | ⟨s', u, i, deadline⟩)
    w - hn
  · have hS : (numbered a.atLast).Shows Prod.fst fun _ _ => True := numbered_shows
    refine Program.Ensures.mono (hS.ensures_page (E := fun _ _ => True) (Q := fun _ _ => True)
      fun x v hv => ⟨trivial, Contract.ends_of_forall fun rows => ?_⟩) fun _ _ _ => trivial
    refine (hS.ensures_offerAll_of_silent (numbered_still · nofun) trivial).mono fun _ _ _ => ?_
    dsimp only
    split
    · trivial
    · exact ⟨trivial, fun _ _ _ _ => Contract.ends_of_forall fun _ => trivial⟩
  · obtain ⟨rfl, rfl, begun⟩ := hn
    exact settling_feedRound kept begun
  · exact hn.elim
  · exact hn.elim

/-- A tick that comes to its end without an error leaves its watermark settled. -/
theorem settled_of_leads (kept : a.table.WellKept) {f g : String → Option UInt64} {es : List Event}
    {o : Outcome} (unlocked : o ≠ .locked)
    (run : (s.tick t).run.Leads (numbers.only a.atLast) f es (.done (.ok o)) g) :
    a.Settled t (g (s.key t.stop)) := by
  have noted := run.noted (fun (o : Unit) _ => o) ()
  have swept : (s.sweep t).Ensures (numbered a.atLast) (fun _ => True) (settling s a t)
      (fun _ _ => True) (f, ()) fun _ v => a.Settled t (v.1 (s.key t.stop)) := by
    cases t with
    | maturity => exact settling_sweepMaturity
    | batch r => exact settling_sweepBatch
    | feed f => exact settling_sweepFeed
  have ticked := numbered_shows.ensures_tick
    (Q := fun o v => o ≠ .locked → a.Settled t (v.1 (s.key t.stop))) trivial
    (fun h => absurd rfl h) (swept.mono fun _ _ h _ => h)
  exact Program.Ensures.result ticked (settling_kept kept) trivial noted unlocked

def own (s : Setup) (t : Task) (ints : String → Option UInt64) : String → Option UInt64 :=
  fun key => if key ∈ s.owned t then ints key else none

section Own
variable {f g : String → Option UInt64} {key : String}

theorem own_of_mem (mem : key ∈ s.owned t) : s.own t f key = f key :=
  if_pos mem

theorem own_congr (same : ∀ key ∈ s.owned t, g key = f key) : s.own t g = s.own t f := by
  funext key
  unfold own
  split
  · next mem => exact same key mem
  · rfl

theorem own_update {value : UInt64} (mem : key ∈ s.owned t) :
    s.own t (Function.update f key (some value)) = Function.update (s.own t f) key (some value) := by
  funext k
  by_cases hk : k = key
  · subst hk
    rw [own_of_mem mem, Function.update_self, Function.update_self]
  · rw [Function.update_of_ne hk _ _, own, own, Function.update_of_ne hk _ _]

theorem numbers_own {e : Event} (may : s.asks t e.request ∨ e.request.isGuard = true)
    (h : numbers f e g) : numbers (s.own t f) e (s.own t g) := by
  obtain ⟨r, x⟩ := e
  cases r with
  | store c =>
    cases c with
    | getInt key =>
      have mem : key ∈ s.owned t := may.resolve_right nofun
      cases x with
      | ok v =>
        obtain ⟨rfl, rfl⟩ := h
        exact ⟨(own_of_mem mem).symm, rfl⟩
      | error err => exact congrArg (s.own t) h
    | setInt key value =>
      have mem : key ∈ s.owned t := may.resolve_right nofun
      cases x with
      | ok u => exact (congrArg (s.own t) h).trans (own_update mem)
      | error err => exact congrArg (s.own t) h
    | _ => exact congrArg (s.own t) h
  | _ => exact congrArg (s.own t) h

end Own

theorem within_tick : (s.tick t).run.Within
    (fun r => s.asks t r ∨ r.isGuard = true) (s.loops t) := by
  have sweep : (s.sweep t).run.Within (fun r => s.asks t r ∨ r.isGuard = true) (s.loops t) :=
    (sweeps_sweep t).mono fun _ => .inl
  rw [run_tick_eq]
  refine ⟨.inr rfl, fun token => ⟨.inr rfl, fun taken => ?_⟩⟩
  rcases taken with e | _ | _
  · trivial
  · trivial
  · exact ⟨.inr rfl, fun _ => Program.within_bind sweep fun _ =>
      ⟨.inr rfl, fun _ => ⟨.inr rfl, fun _ => trivial⟩⟩⟩

theorem requests_of_tick {σ : Type} {S : Surroundings σ} {u v : σ} {es : List Event}
    {p : Program (Except Error Outcome)} (run : (s.tick t).run.Leads S u es p v) :
    ∀ e ∈ es, s.asks t e.request ∨ e.request.isGuard = true :=
  (within_tick.rest (fun _ hl => (sweeps_loop hl).mono fun _ => .inl) run).2

theorem key_stop_mem (t : Task) : s.key t.stop ∈ s.owned t := by
  have owner : t.stop.owner = t := by
    rcases t with _ | (_ | _) | (_ | _) <;> rfl
  have mem := key_mem_owned (s := s) t.stop
  rwa [owner] at mem

section Replicas
open Replicas

variable {n : Nat} {task : Fin n → Task} {i : Fin n} {m : Memory} {P R : Replicas n} {mv : Move n}

theorem ints_of_step (sound : s.Sound task P) (step : P.Step mv R)
    (other : ∀ k, mv.actor = .tick k → task k ≠ t) :
    ∀ key ∈ s.owned t, R.memory.ints key = P.memory.ints key := by
  intro key mem
  obtain same | ⟨value, hevent, -⟩ := timed_ints step.timed key
  · exact same
  obtain ⟨now, actor, e⟩ := mv
  obtain rfl : e = _ := hevent
  cases actor with
  | job j => exact nomatch sound.meek step rfl
  | tick k =>
    obtain ⟨st, st', -, he, -⟩ := sound.conduct step rfl
    cases conducts_of_conduct he with
    | work token read read' e unnamed untried write fresh =>
      exact absurd (write _ _ rfl).1 (not_mem_owned (other k rfl).symm mem)

theorem leads_own {allowed : Event → Prop} (sound : s.Sound task P) (step : P.Step mv R)
    (actor : mv.actor = .tick i) (may : allowed mv.event) :
    (P.ticks i).program.Leads (numbers.only allowed) (s.own (task i) P.memory.ints) [mv.event]
      (R.ticks i).program (s.own (task i) R.memory.ints) := by
  have trace := (sound.step step).ticks i
  cases step with
  | job => cases actor
  | @tick now k e q memory later run =>
    cases actor
    simp only [Function.update_self] at trace ⊢
    have asked := requests_of_tick trace e (by simp)
    have only : (P.ticks i).program.Leads ((timed now).only (· = e)) P.memory [e] q memory :=
      run.only (by simp)
    refine only.map (fun u => s.own (task i) u.ints) ?_
    rintro u _ v ⟨rfl, hv⟩
    exact ⟨may, numbers_own asked (numbers_of_shared (shared_of_timed hv))⟩

/-- Until a tick is over no other tick of its task has the lock. The tick finds the chains and the
end of the table as `a` has them; until it is at the end the table may still grow. The other ticks
of its task find everything as `a` has it. -/
structure StandsStill (s : Setup) (task : Fin n → Task) (i : Fin n) (a : Answers) (P : Replicas n)
    (mv : Move n) : Prop where
  alone : (P.ticks i).program.result? = none →
    ∀ j, j ≠ i → task j = task i → s.holder? task P j = none
  first : mv.actor = .tick i → a.atLast mv.event
  later : ∀ j, j ≠ i → task j = task i → mv.actor = .tick j → a.stays mv.event

instance (P : Replicas n) (mv : Move n) : Decidable (s.StandsStill task i a P mv) :=
  decidable_of_iff
    (((P.ticks i).program.result? = none →
      ∀ j, j ≠ i → task j = task i → s.holder? task P j = none) ∧
      (mv.actor = .tick i → a.atLast mv.event) ∧
      ∀ j, j ≠ i → task j = task i → mv.actor = .tick j → a.stays mv.event)
    ⟨fun ⟨alone, first, later⟩ => ⟨alone, first, later⟩,
      fun ⟨alone, first, later⟩ => ⟨alone, first, later⟩⟩

structure Unmoved (s : Setup) (task : Fin n → Task) (i : Fin n) (a : Answers) (m : Memory)
    (P : Replicas n) : Prop where
  underway : (P.ticks i).program.result? = none →
    (s.tick (task i)).run.Leads (numbers.only a.atLast) (s.own (task i) m.ints)
      (P.ticks i).events (P.ticks i).program (s.own (task i) P.memory.ints)
  settled : (P.ticks i).program.result? ≠ none →
    a.Settled (task i) (P.memory.ints (s.key (task i).stop))
  found : ∀ j, j ≠ i → task j = task i → ∀ e ∈ (P.ticks j).events, s.Finds a (task i) e

section Moves

theorem Unmoved.other (h : s.Unmoved task i a m P) (sound : s.Sound task P) (step : P.Step mv R)
    (other : ∀ k, mv.actor = .tick k → task k ≠ task i) : s.Unmoved task i a m R := by
  have same : ∀ k, task k = task i → R.ticks k = P.ticks k :=
    fun k hk => step.ticks_of_ne fun actor => other k actor hk
  have ints := ints_of_step sound step other
  refine ⟨fun going => ?_, fun ended => ?_, fun j hj hk => ?_⟩
  · rw [same i rfl] at going ⊢
    rw [own_congr ints]
    exact h.underway going
  · rw [same i rfl] at ended
    rw [ints _ (key_stop_mem _)]
    exact h.settled ended
  · rw [same j hk]
    exact h.found j hj hk

theorem Unmoved.first (kept : a.table.WellKept) (h : s.Unmoved task i a m P)
    (sound : s.Sound task P) (still : s.StandsStill task i a P mv) (step : P.Step mv R)
    (actor : mv.actor = .tick i)
    (unfailed : ∀ r, (R.ticks i).program = .done r → ∃ o, r = .ok o ∧ o ≠ .locked) :
    s.Unmoved task i a m R := by
  have moved := leads_own sound step actor (still.first actor)
  have whole := (h.underway (step.result?_eq_none actor)).trans moved
  rw [← step.events actor] at whole
  refine ⟨fun _ => whole, fun ended => ?_, fun j hj hk => ?_⟩
  · obtain ⟨r, hr⟩ := Option.ne_none_iff_exists'.1 ended
    have hr := Program.eq_done_of_result? hr
    obtain ⟨o, rfl, unlocked⟩ := unfailed r hr
    have settled := settled_of_leads kept unlocked (hr ▸ whole)
    rwa [own_of_mem (key_stop_mem _)] at settled
  · rw [step.ticks_of_ne fun same => hj (Actor.tick.inj (same.symm.trans actor))]
    exact h.found j hj hk

theorem idles_of_found {j : Fin n} (sound : s.Sound task P)
    (found : ∀ e ∈ (P.ticks j).events, s.Finds a (task j) e) :
    ∀ e ∈ (P.ticks j).events, (task j).idles e.request = true :=
  ((brief_tick True).rest (sound.ticks j) fun e he => ⟨found e he, fun _ => trivial⟩).2.1

theorem isWrite_of_idles {r : Request} (h : t.idles r = true) : r.isWrite = false := by
  cases r with
  | store c => cases c <;> first | rfl | cases h
  | _ => rfl

theorem isOffer_of_idles {e : Event} (h : t.idles e.request = true) : e.isOffer = false := by
  obtain ⟨r, x⟩ := e
  cases r with
  | measure k => cases k <;> first | rfl | cases h
  | launch => cases h
  | _ => rfl

theorem Unmoved.later (h : s.Unmoved task i a m P) (sound : s.Sound task P)
    (still : s.StandsStill task i a P mv) (step : P.Step mv R) {j : Fin n}
    (actor : mv.actor = .tick j) (hj : j ≠ i) (same : task j = task i) :
    s.Unmoved task i a m R := by
  have sound' := sound.step step
  have first : R.ticks i = P.ticks i :=
    step.ticks_of_ne fun hi => hj (Actor.tick.inj (actor.symm.trans hi))
  have finds : s.Finds a (task i) mv.event := by
    refine ⟨still.later j hj same actor, fun v hv => ?_⟩
    have read := step.timed
    rw [hv] at read
    obtain ⟨-, mark⟩ := timed_found read
    rw [← mark]
    refine h.settled fun going => ?_
    -- a tick reads numbers under its lock only
    obtain ⟨st, st', hP, he, -⟩ := sound.conduct step actor
    have locked := still.alone going j hj same
    rw [hv] at he
    cases conducts_of_conduct he with
    | work token =>
      rw [holder?, hP] at locked
      cases locked
  have found : ∀ k, k ≠ i → task k = task i → ∀ e ∈ (R.ticks k).events, s.Finds a (task i) e := by
    intro k hk own e he
    by_cases mover : mv.actor = .tick k
    · rw [step.events mover, List.mem_append, List.mem_singleton] at he
      obtain he | rfl := he
      · exact h.found k hk own e he
      · exact finds
    · rw [step.ticks_of_ne mover] at he
      exact h.found k hk own e he
  have idle := idles_of_found sound' (same ▸ found j hj same) mv.event (by simp [step.events actor])
  have ints : R.memory.ints = P.memory.ints :=
    congrArg Prod.fst (data_of_shared (shared_of_timed step.timed) (isWrite_of_idles idle))
  refine ⟨fun going => ?_, fun ended => ?_, found⟩
  · rw [first] at going ⊢
    rw [ints]
    exact h.underway going
  · rw [first] at ended
    rw [ints]
    exact h.settled ended

end Moves

/-- What can be said of a tick that found nothing to do: it wrote nothing, sent nothing, asked for
rows only if it is a feed, and was over soon. -/
structure Idle (t : Task) (thread : Thread (Except Error Outcome)) : Prop where
  writes : ∀ e ∈ thread.events, e.request.isWrite = false
  offers : ∀ e ∈ thread.events, e.isOffer = false
  questions : t.isFeed = false → ∀ e ∈ thread.events, ∀ c, e.request ≠ .records c
  brief : thread.events.length ≤ 8 ∧
    (thread.events.length = 8 → ∃ r, thread.program = .done r)
  outcome : ∀ o, thread.program = .done (.ok o) → o = .locked ∨ o = .noChange
  failed : ∀ err, thread.program = .done (.error err) → ∃ e ∈ thread.events, e.error?.isSome = true

theorem unmoved_of_reaches {now : Nat} {ms : List (Move n)} (kept : a.table.WellKept)
    (run : Reaches (s.together task now m) (s.StandsStill task i a) ms P)
    (unfailed : ∀ r, (P.ticks i).program = .done r → ∃ o, r = .ok o ∧ o ≠ .locked) :
    s.Unmoved task i a m P := by
  induction run with
  | start =>
    refine ⟨fun _ => .refl _ _, fun ended => absurd ?_ ended, fun j _ _ e he => nomatch he⟩
    exact congrArg Program.result? run_tick_eq
  | @step ms mv P R before still step ih =>
    have sound : s.Sound task P := .of_reaches before
    have earlier : s.Unmoved task i a m P := by
      refine ih fun r hr => unfailed r ?_
      rw [step.ticks_of_ne, hr]
      intro actor
      have going := step.result?_eq_none actor
      rw [hr] at going
      cases going
    by_cases mine : ∃ j, mv.actor = .tick j ∧ task j = task i
    · obtain ⟨j, actor, same⟩ := mine
      by_cases hj : j = i
      · subst hj
        exact earlier.first kept sound still step actor unfailed
      · exact earlier.later sound still step actor hj same
    · exact earlier.other sound step fun k actor same => mine ⟨k, actor, same⟩

/-- After a tick that came to its end without an error, and as long as the chains and the table of
its task stay the same, the other ticks of the task find nothing to do. -/
theorem idle_after {now : Nat} {ms : List (Move n)} {o : Outcome} (kept : a.table.WellKept)
    (run : Reaches (s.together task now m) (s.StandsStill task i a) ms P)
    (ended : (P.ticks i).program = .done (.ok o)) (unlocked : o ≠ .locked) :
    ∀ j, j ≠ i → task j = task i → Idle (task i) (P.ticks j) := by
  intro j hj same
  have sound : s.Sound task P := .of_reaches run
  have unmoved := unmoved_of_reaches kept run fun r hr =>
    ⟨o, Program.done.inj (hr.symm.trans ended), unlocked⟩
  have found := unmoved.found j hj same
  have trace := sound.ticks j
  rw [same] at trace
  obtain ⟨brief, kinds, left⟩ := (brief_tick (∃ e ∈ (P.ticks j).events,
    e.error?.isSome = true)).rest trace fun e he => ⟨found e he, fun failed => ⟨e, he, failed⟩⟩
  refine ⟨fun e he => isWrite_of_idles (kinds e he), fun e he => ?_, fun rows e he c hc => ?_,
    ⟨brief, fun full => ?_⟩, fun o' ho => ?_, fun err herr => ?_⟩
  · exact isOffer_of_idles (kinds e he)
  · have asked := kinds e he
    rw [hc] at asked
    exact absurd asked (by simp [Task.idles, rows])
  · rw [full] at left
    exact left.done_of_zero
  · rw [ho] at left
    exact left.result
  · rw [herr] at left
    exact left.result

open Simulation

/-- The second tick has its token first, but comes after the first one, which reads two full pages;
the third one finds the lock taken. A maturity tick comes between. -/
def feedCalls : List (Call 4) :=
  [{ actor := .tick 1 }] ++ List.replicate 7 { actor := .tick 0 } ++
    List.replicate 20 { actor := .tick 3, chain := fun c => { c with head := 100 } } ++
    List.replicate 20 { actor := .tick 0 } ++ List.replicate 4 { actor := .tick 1, later := 5 } ++
    List.replicate 4 { actor := .tick 2 } ++ List.replicate 4 { actor := .tick 1 }

def feedTasks : Fin 4 → Task
  | 3 => .maturity
  | _ => .feed .deposits

def beforeDeposits : Memory :=
  { Memory.empty with ints := Function.update (fun _ => none) (onePerPage.key .depositFeed) (some 0) }

def feedTicks : List (Replicas 4 × Move 4) × Replicas 4 × World :=
  perform feedCalls (onePerPage.together feedTasks 0 beforeDeposits)
    { depositWorld with store := { depositWorld.store with memory := beforeDeposits } }

theorem idle_after_feedTicks :
    (feedTicks.2.1.ticks 0).program = .done (.ok (.advanced 0 2 2)) ∧
    (feedTicks.2.1.ticks 1).program = .done (.ok .noChange) ∧
    (feedTicks.2.1.ticks 2).program = .done (.ok .locked) ∧
    Idle (.feed .deposits) (feedTicks.2.1.ticks 1) ∧
    Idle (.feed .deposits) (feedTicks.2.1.ticks 2) := by
  have run : Reaches (onePerPage.together feedTasks 0 beforeDeposits)
      (onePerPage.StandsStill feedTasks 0 ⟨fun _ => 0, twoDeposits, 64⟩)
      (feedTicks.1.map Prod.snd) feedTicks.2.1 :=
    (reaches_perform feedCalls .start rfl (Nat.le_refl _) (by decide +kernel)).1
  have ended : (feedTicks.2.1.ticks 0).program = .done (.ok (.advanced 0 2 2)) :=
    Program.eq_done_of_result? (by decide +kernel)
  have idle := idle_after wellKept_twoDeposits run ended nofun
  exact ⟨ended, Program.eq_done_of_result? (by decide +kernel),
    Program.eq_done_of_result? (by decide +kernel), idle 1 (by decide) rfl, idle 2 (by decide) rfl⟩

end Replicas
end Setup
end BridgeNotifier
