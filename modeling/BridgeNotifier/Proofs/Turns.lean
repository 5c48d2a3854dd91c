import BridgeNotifier.Proofs.Replicas
import Mathlib.Data.List.Nodup
set_option autoImplicit false

namespace BridgeNotifier

variable {n : Nat}

namespace Move

def entering? : Move n → Option (Fin n)
  | ⟨_, .tick i, ⟨.store (.tryLock _ _ _), .ok true⟩⟩ => some i
  | _ => none

def ticked? : Move n → Option (Fin n × Event)
  | ⟨_, .tick i, e⟩ => some (i, e)
  | _ => none

end Move

def entries (ms : List (Move n)) : List (Fin n) :=
  ms.filterMap Move.entering?

def turns (ticks : Fin n → Thread (Except Error Outcome)) (order : List (Fin n)) :
    List (Fin n × Event) :=
  order.flatMap fun i => (ticks i).events.map (i, ·)

section Orders
variable {ticks : Fin n → Thread (Except Error Outcome)} {order : List (Fin n)} {i : Fin n}

theorem turns_concat :
    turns ticks (order ++ [i]) = turns ticks order ++ (ticks i).events.map (i, ·) := by
  simp [turns]

theorem turns_update {thread : Thread (Except Error Outcome)} (hi : i ∉ order) :
    turns (Function.update ticks i thread) order = turns ticks order := by
  refine List.flatMap_congr fun k hk => ?_
  have hki : k ≠ i := fun hki => hi (hki ▸ hk)
  rw [Function.update_of_ne hki]

end Orders

namespace Setup
open Replicas Surroundings

variable (s : Setup) (task : Fin n → Task)

/-- Whenever something happens, every tick that has its lock still holds the lease of it. -/
def LeasesKept (P : Replicas n) (mv : Move n) : Prop :=
  ∀ i, ∀ token ∈ s.holder? task P i,
    (P.memory.held? mv.now (s.lockKey (task i))).map Held.token = some token

instance (P : Replicas n) (mv : Move n) : Decidable (s.LeasesKept task P mv) :=
  inferInstanceAs (Decidable (∀ i, ∀ token ∈ s.holder? task P i, _))

variable {s task} {P Q : Replicas n} {mv : Move n} {t : Task}

theorem entries_concat (ms : List (Move n)) (mv : Move n) :
    entries (ms ++ [mv]) = entries ms ++ mv.entering?.toList := by
  cases h : mv.entering? <;> simp [entries, h]

theorem entries_of_none {ms : List (Move n)} {mv : Move n} (h : mv.entering? = none) :
    entries (ms ++ [mv]) = entries ms := by
  rw [entries_concat, h, Option.toList_none, List.append_nil]

theorem entries_of_some {ms : List (Move n)} {mv : Move n} {i : Fin n}
    (h : mv.entering? = some i) : entries (ms ++ [mv]) = entries ms ++ [i] := by
  rw [entries_concat, h, Option.toList_some]

theorem ticked_concat (ms : List (Move n)) (mv : Move n) :
    (ms ++ [mv]).filterMap Move.ticked? = ms.filterMap Move.ticked? ++ mv.ticked?.toList := by
  cases h : mv.ticked? <;> simp [h]

theorem entering?_of_untried {now : Nat} {i : Fin n} {e : Event}
    (h : ∀ key held ttl, e.request ≠ .store (.tryLock key held ttl)) :
    (Move.mk now (.tick i) e).entering? = none := by
  obtain ⟨r, x⟩ := e
  cases r with
  | store c =>
    cases c with
    | tryLock key held ttl => exact absurd rfl (h key held ttl)
    | _ => cases x <;> rfl
  | _ => rfl

theorem entering?_of_refused {now : Nat} {i : Fin n} {key held : String} {ttl : Interval}
    {x : Except Error Bool} (hx : x ≠ .ok true) :
    (Move.mk now (.tick i) ⟨.store (.tryLock key held ttl), x⟩).entering? = none := by
  rcases x with err | _ | _
  · rfl
  · rfl
  · exact absurd rfl hx

/-- What the moves so far say about who got the lock: the ticks that did, each once, the last of
them being the only one that may have it now. -/
structure Entered (s : Setup) (t : Task) (ms : List (Move n)) (P : Replicas n) : Prop where
  nodup : (entries ms).Nodup
  mem : ∀ i, i ∈ entries ms ↔ ∃ st, s.stands (fun _ => t) P i = some st ∧ st.entered = true
  last : ∀ i token read, s.stands (fun _ => t) P i = some (.inside token read) →
    (entries ms).getLast? = some i

/-- Other moves with the same effect, in which each tick that got the lock has run at one go. -/
structure InTurn (s : Setup) (t : Task) (first : Replicas n) (ms : List (Move n)) (P : Replicas n)
    (ms' : List (Move n)) (P' : Replicas n) : Prop where
  reaches : Reaches first (s.LeasesKept fun _ => t) ms' P'
  now : P'.now ≤ P.now
  memory : P'.memory = P.memory
  jobs : P'.jobs = P.jobs
  entered : ∀ i ∈ entries ms, P'.ticks i = P.ticks i
  waiting : ∀ i, i ∉ entries ms → P'.ticks i = ⟨[], (s.tick t).run⟩
  order : ms'.filterMap Move.ticked? = turns P.ticks (entries ms)

section Turns
variable {first P' : Replicas n} {ms ms' : List (Move n)}

theorem InTurn.leasesKept (h : s.InTurn t first ms P ms' P') {now : Nat} {a a' : Actor n}
    {e e' : Event} (kept : s.LeasesKept (fun _ => t) P ⟨now, a, e⟩) :
    s.LeasesKept (fun _ => t) P' ⟨now, a', e'⟩ := by
  intro i token hi
  by_cases hmem : i ∈ entries ms
  · have stands : s.stands (fun _ => t) P' i = s.stands (fun _ => t) P i := by
      rw [Setup.stands, Setup.stands, h.entered i hmem]
    rw [h.memory]
    exact kept i token (by rwa [holder?, ← stands])
  · rw [holder?, Setup.stands, h.waiting i hmem] at hi
    cases hi

theorem Entered.job (h : s.Entered t ms P) {now j : Nat} {e : Event}
    (step : P.Step ⟨now, .job j, e⟩ Q) : s.Entered t (ms ++ [⟨now, .job j, e⟩]) Q := by
  have same : ∀ i, s.stands (fun _ => t) Q i = s.stands (fun _ => t) P i :=
    fun i => stands_of_ne step (by simp)
  have list : entries (ms ++ [⟨now, .job j, e⟩]) = entries ms := entries_of_none rfl
  refine ⟨list ▸ h.nodup, fun i => ?_, fun i token read hi => ?_⟩
  · rw [list, same]
    exact h.mem i
  · rw [list]
    exact h.last i token read (same i ▸ hi)

theorem InTurn.job (h : s.InTurn t first ms P ms' P') {now j : Nat} {e : Event}
    (kept : s.LeasesKept (fun _ => t) P ⟨now, .job j, e⟩) (step : P.Step ⟨now, .job j, e⟩ Q) :
    ∃ Q', s.InTurn t first (ms ++ [⟨now, .job j, e⟩]) Q (ms' ++ [⟨now, .job j, e⟩]) Q' := by
  cases step with
  | @job _ _ u _ q m later started run =>
    have step' : P'.Step ⟨now, .job j, e⟩ ⟨now, m, P'.ticks, P'.jobs.set j ⟨u.events ++ [e], q⟩⟩ :=
      .job (Nat.le_trans h.now later) (h.jobs ▸ started) (h.memory ▸ run)
    have list : entries (ms ++ [⟨now, .job j, e⟩]) = entries ms := entries_of_none rfl
    refine ⟨_, h.reaches.step (h.leasesKept kept) step', Nat.le_refl _, rfl, ?_,
      list ▸ h.entered, list ▸ h.waiting, ?_⟩
    · simp only [h.jobs]
    · have ticked : (Move.mk (n := n) now (.job j) e).ticked? = .none := rfl
      rw [ticked_concat, ticked, list, Option.toList_none, List.append_nil]
      exact h.order

variable {now : Nat} {i : Fin n} {e : Event} {st st' : Standing}

theorem Entered.stay (h : s.Entered t ms P) (step : P.Step ⟨now, .tick i, e⟩ Q)
    (hP : s.stands (fun _ => t) P i = some st) (hQ : s.stands (fun _ => t) Q i = some st')
    (same : st'.entered = st.entered)
    (inside : ∀ token read, st' = .inside token read → ∃ token read, st = .inside token read)
    (none : (Move.mk now (.tick i) e).entering? = none) :
    s.Entered t (ms ++ [⟨now, .tick i, e⟩]) Q := by
  have other : ∀ k, k ≠ i → s.stands (fun _ => t) Q k = s.stands (fun _ => t) P k :=
    fun k hk => stands_of_ne step (by simpa using hk.symm)
  have list : entries (ms ++ [⟨now, .tick i, e⟩]) = entries ms := entries_of_none none
  refine ⟨list ▸ h.nodup, fun k => ?_, fun k token read hk => ?_⟩
  · rw [list, h.mem k]
    by_cases hki : k = i
    · subst hki
      simp only [hP, hQ, Option.some.injEq, exists_eq_left', same]
    · rw [other k hki]
  · rw [list]
    by_cases hki : k = i
    · subst hki
      obtain ⟨token', read', rfl⟩ := inside token read (Option.some.inj (hQ.symm.trans hk))
      exact h.last k token' read' hP
    · exact h.last k token read (other k hki ▸ hk)

theorem Entered.enter (h : s.Entered t ms P) (step : P.Step ⟨now, .tick i, e⟩ Q) {token : String}
    (hP : s.stands (fun _ => t) P i = some (.named token))
    (hQ : s.stands (fun _ => t) Q i = some (.inside token none))
    (free : ∀ k token read, s.stands (fun _ => t) P k ≠ some (.inside token read))
    (some : (Move.mk now (.tick i) e).entering? = some i) :
    s.Entered t (ms ++ [⟨now, .tick i, e⟩]) Q ∧ i ∉ entries ms := by
  have other : ∀ k, k ≠ i → s.stands (fun _ => t) Q k = s.stands (fun _ => t) P k :=
    fun k hk => stands_of_ne step (by simpa using hk.symm)
  have fresh : i ∉ entries ms := by
    rw [h.mem i, hP]
    rintro ⟨st, hst, hentered⟩
    cases hst
    cases hentered
  have list : entries (ms ++ [⟨now, .tick i, e⟩]) = entries ms ++ [i] := entries_of_some some
  refine ⟨⟨?_, fun k => ?_, fun k token read hk => ?_⟩, fresh⟩
  · rw [list, List.nodup_append]
    refine ⟨h.nodup, List.nodup_singleton i, fun k hk l hl hkl => fresh ?_⟩
    rwa [← List.mem_singleton.1 hl, ← hkl]
  · rw [list, List.mem_append, List.mem_singleton, h.mem k]
    by_cases hki : k = i
    · subst hki
      simp [hQ, Standing.entered]
    · rw [other k hki]
      simp [hki]
  · rw [list, List.getLast?_concat]
    by_cases hki : k = i
    · rw [hki]
    · exact absurd (other k hki ▸ hk) (free k token read)

/-- A move before the lock is left out, or put off until the lock is taken. -/
theorem InTurn.skip (h : s.InTurn t first ms P ms' P') (step : P.Step ⟨now, .tick i, e⟩ Q)
    (hi : i ∉ entries ms) (none : (Move.mk now (.tick i) e).entering? = none)
    (silent : e.starts = []) (hm : Q.memory = P.memory) :
    s.InTurn t first (ms ++ [⟨now, .tick i, e⟩]) Q ms' P' := by
  have list : entries (ms ++ [⟨now, .tick i, e⟩]) = entries ms := entries_of_none none
  cases step with
  | tick later _ =>
    refine ⟨h.reaches, Nat.le_trans h.now later, h.memory.trans hm.symm, ?_, fun k hk => ?_,
      list ▸ h.waiting, ?_⟩
    · simp [silent, h.jobs]
    · rw [list] at hk
      have hki : k ≠ i := fun hki => hi (hki ▸ hk)
      rw [h.entered k hk]
      exact (Function.update_of_ne hki _ _).symm
    · rw [list, h.order, turns_update hi]

theorem InTurn.work (h : s.InTurn t first ms P ms' P') (entered : s.Entered t ms P)
    (kept : s.LeasesKept (fun _ => t) P ⟨now, .tick i, e⟩) (step : P.Step ⟨now, .tick i, e⟩ Q)
    (last : (entries ms).getLast? = some i) (none : (Move.mk now (.tick i) e).entering? = none) :
    ∃ Q', s.InTurn t first (ms ++ [⟨now, .tick i, e⟩]) Q (ms' ++ [⟨now, .tick i, e⟩]) Q' := by
  have list : entries (ms ++ [⟨now, .tick i, e⟩]) = entries ms := entries_of_none none
  -- The turn of the tick is the last one so far, so its move comes at the end of all turns.
  obtain ⟨before, hbefore⟩ := List.getLast?_eq_some_iff.1 last
  have hi : i ∉ before := by
    have nodup := entered.nodup
    rw [hbefore, List.nodup_append] at nodup
    exact fun hi => nodup.2.2 i hi i (List.mem_singleton.2 rfl) rfl
  have mem : i ∈ entries ms := List.mem_of_getLast? last
  have ticks : P'.ticks i = P.ticks i := h.entered i mem
  cases step with
  | @tick _ _ _ q m later run =>
    have step' : P'.Step ⟨now, .tick i, e⟩ ⟨now, m,
        Function.update P'.ticks i ⟨(P'.ticks i).events ++ [e], q⟩,
        P'.jobs ++ e.starts.map (Thread.mk [])⟩ :=
      .tick (Nat.le_trans h.now later) (by rw [ticks, h.memory]; exact run)
    refine ⟨_, h.reaches.step (h.leasesKept kept) step', Nat.le_refl _, rfl, ?_, fun k hk => ?_,
      fun k hk => ?_, ?_⟩
    · simp only [h.jobs]
    · rw [list] at hk
      by_cases hki : k = i
      · subst hki
        simp only [Function.update_self, ticks]
      · simp only [Function.update_of_ne hki]
        exact h.entered k hk
    · rw [list] at hk
      have hki : k ≠ i := fun hki => hk (hki ▸ mem)
      simp only [Function.update_of_ne hki]
      exact h.waiting k hk
    · have moved : (Move.mk now (.tick i) e).ticked? = some (i, e) := rfl
      rw [ticked_concat, moved, list, h.order, hbefore, turns_concat, turns_concat,
        turns_update hi]
      simp

theorem step_named (sound : s.Sound (fun _ => t) P) {token : String}
    (hP : s.stands (fun _ => t) P i = some (.named token)) (later : P'.now ≤ now)
    (fresh : P'.ticks i = ⟨[], (s.tick t).run⟩) :
    P'.Step ⟨now, .tick i, ⟨.token, token⟩⟩
      ⟨now, P'.memory, Function.update P'.ticks i (P.ticks i), P'.jobs⟩ := by
  have events : (P.ticks i).events = [⟨.token, token⟩] := standing_named hP
  have whole := sound.ticks i
  rw [events] at whole
  have run : (P'.ticks i).program.Leads (timed now) P'.memory [⟨.token, token⟩]
      (P.ticks i).program P'.memory := by
    rw [fresh]
    exact timed_of_leads whole (by simp)
  have step := Step.tick (P := P') later run
  simpa only [fresh, ← events, List.nil_append, Event.starts, List.map_nil, List.append_nil]
    using step

theorem leasesKept_named {N : Replicas n} {token : String} {e e' : Event}
    (step : P'.Step ⟨now, .tick i, e⟩ N) (memory : N.memory = P'.memory)
    (hN : s.stands (fun _ => t) N i = some (.named token))
    (kept : s.LeasesKept (fun _ => t) P' ⟨now, .tick i, e'⟩) :
    s.LeasesKept (fun _ => t) N ⟨now, .tick i, e'⟩ := by
  intro k held hk
  by_cases hki : k = i
  · subst hki
    rw [holder?, hN] at hk
    cases hk
  · rw [holder?, stands_of_ne step (by simpa using fun h => hki h.symm)] at hk
    rw [memory]
    exact kept k held hk

theorem InTurn.enter (h : s.InTurn t first ms P ms' P') (sound : s.Sound (fun _ => t) P)
    (kept : s.LeasesKept (fun _ => t) P ⟨now, .tick i, e⟩) (step : P.Step ⟨now, .tick i, e⟩ Q)
    {token : String} (hP : s.stands (fun _ => t) P i = some (.named token)) (hi : i ∉ entries ms)
    (entered : (Move.mk now (.tick i) e).entering? = some i) :
    ∃ ms' Q', s.InTurn t first (ms ++ [⟨now, .tick i, e⟩]) Q ms' Q' := by
  have list : entries (ms ++ [⟨now, .tick i, e⟩]) = entries ms ++ [i] := entries_of_some entered
  have fresh : P'.ticks i = ⟨[], (s.tick t).run⟩ := h.waiting i hi
  have named := step_named sound hP (Nat.le_trans h.now step.now_le) fresh
  cases step with
  | @tick _ _ _ q m later run =>
    -- Two moves in a row: it is given its token, and it takes its lock.
    obtain ⟨N, hN⟩ : ∃ N : Replicas n, N = ⟨now, P'.memory, Function.update P'.ticks i (P.ticks i),
      P'.jobs⟩ := ⟨_, rfl⟩
    have ticks : N.ticks i = P.ticks i := by simp [hN]
    dsimp only at named
    rw [← hN] at named
    have kept' : s.LeasesKept (fun _ => t) N ⟨now, .tick i, e⟩ :=
      leasesKept_named named (by rw [hN]) (by rw [Setup.stands, ticks]; exact hP)
        (h.leasesKept kept)
    have later : N.now ≤ now := by simp [hN]
    have taken := Step.tick (P := N) (i := i) (e := e) (q := q) (m := m) later
      (by simpa [ticks, hN, h.memory] using run)
    refine ⟨_, _, (h.reaches.step (h.leasesKept kept) named).step kept' taken, Nat.le_refl _, rfl,
      ?_, fun k hk => ?_, fun k hk => ?_, ?_⟩
    · simp only [hN, h.jobs]
    · rw [list, List.mem_append, List.mem_singleton] at hk
      by_cases hki : k = i
      · subst hki
        simp only [Function.update_self, ticks]
      · simp only [hN, Function.update_of_ne hki]
        exact h.entered k (hk.resolve_right hki)
    · rw [list, List.mem_append, List.mem_singleton, not_or] at hk
      simp only [hN, Function.update_of_ne hk.2]
      exact h.waiting k hk.1
    · have moves : (Move.mk now (.tick i) ⟨.token, token⟩).ticked? = some (i, ⟨.token, token⟩) ∧
          (Move.mk now (.tick i) e).ticked? = some (i, e) := ⟨rfl, rfl⟩
      rw [ticked_concat, ticked_concat, moves.1, moves.2, list, h.order, turns_concat,
        turns_update hi]
      simp [standing_named hP]

end Turns

variable {m : Memory} {now : Nat} {ms : List (Move n)}

theorem entered_together : s.Entered t [] (s.together (n := n) (fun _ => t) now m) := by
  refine ⟨List.nodup_nil, fun i => ?_, fun i token read h => ?_⟩
  · have fresh : s.stands (fun _ => t) (s.together (n := n) (fun _ => t) now m) i = some .fresh := rfl
    simp [fresh, entries, Standing.entered]
  · cases h

theorem inTurn_together : s.InTurn t (s.together (n := n) (fun _ => t) now m) []
    (s.together (fun _ => t) now m) [] (s.together (fun _ => t) now m) :=
  ⟨.start, Nat.le_refl _, rfl, rfl, nofun, fun _ _ => rfl, rfl⟩

theorem reaches_inTurn
    (run : Reaches (s.together (fun _ => t) now m) (s.LeasesKept fun _ => t) ms P) :
    s.Entered t ms P ∧ ∃ ms' P', s.InTurn t (s.together (fun _ => t) now m) ms P ms' P' := by
  induction run with
  | start => exact ⟨entered_together, [], _, inTurn_together⟩
  | @step ms mv P Q before kept step ih =>
    obtain ⟨entered, ms', P', turn⟩ := ih
    have sound : s.Sound (fun _ => t) P := .of_reaches before
    obtain ⟨instant, actor, e⟩ := mv
    cases actor with
    | job j =>
      obtain ⟨Q', turn⟩ := turn.job kept step
      exact ⟨entered.job step, _, Q', turn⟩
    | tick i =>
      obtain ⟨st, st', hP, he, hQ⟩ := sound.conduct step rfl
      have outside : st.entered = false → i ∉ entries ms := by
        intro hst hi
        obtain ⟨st', hst', entered⟩ := (entered.mem i).1 hi
        obtain rfl := Option.some.inj (hP.symm.trans hst')
        rw [hst] at entered
        cases entered
      -- Moves under the lock go to the end of the turn of their tick, those before it wait.
      cases conducts_of_conduct he with
      | name token =>
        have none : (Move.mk instant (.tick i) ⟨.token, token⟩).entering? = none := rfl
        have still : Q.memory = P.memory := timed_eq step.timed (by simp)
        exact ⟨entered.stay step hP hQ rfl (by simp) none, ms', P',
          turn.skip step (outside rfl) none rfl still⟩
      | refuse token ttl x hx =>
        have none : (Move.mk instant (.tick i)
            ⟨.store (.tryLock (s.lockKey t) token ttl), x⟩).entering? = none :=
          entering?_of_refused hx
        exact ⟨entered.stay step hP hQ rfl (by simp) none, ms', P',
          turn.skip step (outside rfl) none rfl (timed_refused hx step.timed)⟩
      | enter token ttl =>
        have free : ∀ k held read, s.stands (fun _ => t) P k ≠ some (.inside held read) := by
          intro k held read hk
          have lease := kept k held (by rw [holder?, hk]; rfl)
          rw [(timed_taken step.timed).1] at lease
          cases lease
        obtain ⟨entered', hi⟩ := entered.enter step hP hQ free rfl
        exact ⟨entered', turn.enter sound kept step hP hi rfl⟩
      | work token read read' e unnamed untried write fresh =>
        have none : (Move.mk instant (.tick i) e).entering? = none := entering?_of_untried untried
        obtain ⟨Q', turn⟩ := turn.work entered kept step (entered.last i token read hP) none
        exact ⟨entered.stay step hP hQ rfl (fun _ _ _ => ⟨token, read, rfl⟩) none, _, Q', turn⟩
      | leave token read x =>
        have none : (Move.mk instant (.tick i)
            ⟨.store (.releaseLock (s.lockKey t) token), x⟩).entering? = none :=
          entering?_of_untried (by simp)
        obtain ⟨Q', turn⟩ := turn.work entered kept step (entered.last i token read hP) none
        exact ⟨entered.stay step hP hQ rfl (by simp) none, _, Q', turn⟩

/-- Replicas of one task whose leases are kept behave like one: the ticks that got the lock could
as well have run one after another in the order in which they got it, with the same store and the
same background work. A tick that found the lock taken asked for nothing else. -/
theorem ticks_in_turn
    (run : Reaches (s.together (fun _ => t) now m) (s.LeasesKept fun _ => t) ms P) :
    (entries ms).Nodup ∧
      (∃ ms' P', s.InTurn t (s.together (fun _ => t) now m) ms P ms' P') ∧
      ∀ i, (P.ticks i).program = .done (.ok .locked) → i ∉ entries ms ∧ ∃ token ttl taken,
        (P.ticks i).events =
          [⟨.token, token⟩, ⟨.store (.tryLock (s.lockKey t) token ttl), taken⟩] := by
  obtain ⟨entered, turn⟩ := reaches_inTurn run
  refine ⟨entered.nodup, turn, fun i hi => ?_⟩
  have sound : s.Sound (fun _ => t) P := .of_reaches run
  obtain ⟨st, hst, refused⟩ := conducted (sound.ticks i)
  obtain rfl := refused hi
  refine ⟨fun hmem => ?_, standing_refused hst⟩
  obtain ⟨st, hst', hentered⟩ := (entered.mem i).1 hmem
  obtain rfl := Option.some.inj (hst.symm.trans hst')
  cases hentered

open Simulation

/-- The third tick has its token first, but gets the lock after the first one; the second comes
while the first is under way. -/
def threeCalls : List (Call 3) :=
  [{ actor := .tick 2 }] ++
    List.replicate 5 { actor := .tick 0, chain := fun c => { c with head := 100 } } ++
    [{ actor := .tick 1 }, { actor := .job 0 }, { actor := .tick 1 }] ++
    List.replicate 13 { actor := .tick 0 } ++ List.replicate 5 { actor := .job 1 } ++
    List.replicate 15 { actor := .tick 2, later := 5, chain := fun c => { c with head := 101 } }

def threeTicks : List (Replicas 3 × Move 3) × Replicas 3 × World :=
  perform threeCalls (plainSetup.together (fun _ => .maturity) 0 .empty) depositWorld

theorem reaches_threeTicks : Reaches (plainSetup.together (fun _ => .maturity) 0 .empty)
    (plainSetup.LeasesKept fun _ => .maturity) (threeTicks.1.map Prod.snd) threeTicks.2.1 :=
  (reaches_perform threeCalls .start rfl (Nat.le_refl _) (by decide +kernel)).1

theorem ticks_in_turn_threeTicks :
    entries (threeTicks.1.map Prod.snd) = [0, 2] ∧
    threeTicks.2.1.memory.ints (plainSetup.key .head) = some 101 ∧
    (∃ ms' P', plainSetup.InTurn .maturity (plainSetup.together (fun _ => .maturity) 0 .empty)
      (threeTicks.1.map Prod.snd) threeTicks.2.1 ms' P') ∧
    ∃ token ttl taken, (threeTicks.2.1.ticks 1).events = [⟨.token, token⟩,
      ⟨.store (.tryLock (plainSetup.lockKey .maturity) token ttl), taken⟩] := by
  obtain ⟨-, turn, locked⟩ := ticks_in_turn reaches_threeTicks
  have refused : (threeTicks.2.1.ticks 1).program = .done (.ok .locked) :=
    Program.eq_done_of_result? (by decide +kernel)
  exact ⟨by decide +kernel, by decide +kernel, turn, (locked 1 refused).2⟩

end Setup
end BridgeNotifier
