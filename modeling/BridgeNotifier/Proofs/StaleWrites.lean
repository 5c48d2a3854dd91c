import BridgeNotifier.Proofs.Replicas
set_option autoImplicit false

/-!
# Stale writes

A watermark is moved by a read and a write after it. As long as nobody else takes the lock between
the two, the write finds what was read, and watermarks only grow. Nothing looks at the lock again
when it writes, so a tick that has lost its lease may write above what it read and below what is
there.
-/
namespace BridgeNotifier
open Replicas Surroundings

variable {n : Nat}

namespace Event

def token? : Event → Option String
  | ⟨.token, token⟩ => some token
  | _ => none

def write? : Event → Option (String × UInt64)
  | ⟨.store (.setInt key value), .ok _⟩ => some (key, value)
  | _ => none

end Event

namespace Setup

variable (s : Setup) (task : Fin n → Task)

/-- Tokens are new: neither was one given to a tick before, nor does a lease of a task go by it. -/
def TokensNew (P : Replicas n) (mv : Move n) : Prop :=
  ∀ token ∈ mv.event.token?, (∀ i, token ∉ (P.ticks i).events.filterMap Event.token?) ∧
    ∀ t ∈ Task.all, (P.memory.leases (s.lockKey t)).map Held.token ≠ some token

/-- A watermark is written only by a tick whose lock nobody else has taken since, be its lease over
or not. -/
def LockUntaken (P : Replicas n) (mv : Move n) : Prop :=
  ∀ i, mv.actor = .tick i →
    (∃ w ∈ Watermark.all, mv.event.write?.map Prod.fst = some (s.key w)) →
      (P.memory.leases (s.lockKey (task i))).map Held.token = s.holder? task P i

instance (P : Replicas n) (mv : Move n) : Decidable (s.TokensNew P mv) :=
  inferInstanceAs (Decidable (∀ token ∈ mv.event.token?, (∀ _, _) ∧ ∀ t ∈ Task.all, _))

instance (P : Replicas n) (mv : Move n) : Decidable (s.LockUntaken task P mv) :=
  inferInstanceAs (Decidable (∀ _, _ → (∃ w ∈ Watermark.all, _) → _))

variable {s task} {P Q : Replicas n} {mv : Move n} {t : Task} {es : List Event}

theorem token_mem_of_named {token : String} (h : s.standing t es = some (.named token)) :
    token ∈ es.filterMap Event.token? := by
  rw [standing_named h]
  simp [Event.token?]

theorem token_mem_of_inside {token : String} {read : Option (String × Option UInt64)}
    (h : s.standing t es = some (.inside token read)) : token ∈ es.filterMap Event.token? := by
  obtain ⟨k, hk⟩ : ∃ k, es.length = k := ⟨_, rfl⟩
  induction k generalizing es read with
  | zero =>
    obtain rfl := List.eq_nil_of_length_eq_zero hk
    cases h
  | succ k ih =>
    obtain ⟨-, h⟩ | ⟨before, e, st, rfl, hst, he⟩ := standing_concat_eq h
    · cases h
    · rw [List.filterMap_append]
      refine List.mem_append_left _ ?_
      cases he with
      | enter => exact token_mem_of_named hst
      | work _ read' => exact ih hst (by simpa using hk)

/-- What the leases and the tokens of ticks say about the numbers that ticks have just read. -/
structure Guarded (s : Setup) (task : Fin n → Task) (P : Replicas n) : Prop where
  apart : ∀ i k token, token ∈ (P.ticks i).events.filterMap Event.token? →
    token ∈ (P.ticks k).events.filterMap Event.token? → i = k
  named : ∀ i token, s.stands task P i = some (.named token) →
    ∀ t, (P.memory.leases (s.lockKey t)).map Held.token ≠ some token
  /-- A tick whose lock nobody else has taken finds the number it has just read unchanged. -/
  read : ∀ i token w o, s.stands task P i = some (.inside token (some (s.key w, o))) →
    task i = w.owner → (P.memory.leases (s.lockKey (task i))).map Held.token = some token →
      P.memory.ints (s.key w) = o

section Steps
variable {now : Nat} {m : Memory} {token key : String}

theorem events_of_step (step : P.Step mv Q) (i : Fin n) :
    (Q.ticks i).events = (P.ticks i).events ∨
      mv.actor = .tick i ∧ (Q.ticks i).events = (P.ticks i).events ++ [mv.event] := by
  by_cases hi : mv.actor = .tick i
  · exact .inr ⟨hi, step.events hi⟩
  · exact .inl (congrArg Thread.events (step.ticks_of_ne hi))

theorem untried_of_meek {r : Request} (h : r.isMeek = true) (key held : String) (ttl : Interval) :
    r ≠ .store (.tryLock key held ttl) := by
  rintro rfl
  cases h

theorem lease_token_of_step (sound : s.Sound task P) (step : P.Step mv Q)
    (hQ : (Q.memory.leases key).map Held.token = some token) :
    (P.memory.leases key).map Held.token = some token ∨
      ∃ k, mv.actor = .tick k ∧ s.stands task P k = some (.named token) := by
  have timed := step.timed
  obtain ⟨now, actor, e⟩ := mv
  cases actor with
  | job j => exact .inl (timed_lease_token timed (untried_of_meek (sound.meek step rfl)) hQ)
  | tick k =>
    obtain ⟨st, st', hP, he, -⟩ := sound.conduct step rfl
    cases conducts_of_conduct he with
    | name token' => exact .inl (timed_lease_token timed (by simp) hQ)
    | enter token' ttl =>
      rw [(timed_taken timed).2] at hQ
      by_cases hkey : key = s.lockKey (task k)
      · subst hkey
        simp only [Function.update_self, Option.map_some, Memory.lease, Option.some.injEq] at hQ
        exact .inr ⟨k, rfl, hQ ▸ hP⟩
      · exact .inl (by simpa [Function.update_of_ne hkey _ _] using hQ)
    | refuse token' ttl x hx => exact .inl (timed_refused hx timed ▸ hQ)
    | work token' read read' e unnamed untried write fresh =>
      exact .inl (timed_lease_token timed untried hQ)
    | leave token' read x => exact .inl (timed_lease_token timed (by simp) hQ)

/-- A watermark changes only by a write of its task, which has just read it as something smaller or
as never written. -/
theorem watermark_of_step (sound : s.Sound task P) (step : P.Step mv Q) (w : Watermark) :
    Q.memory.ints (s.key w) = P.memory.ints (s.key w) ∨
      ∃ i value token o, mv.actor = .tick i ∧ mv.event.write? = some (s.key w, value) ∧
        Q.memory.ints (s.key w) = some value ∧ task i = w.owner ∧
        s.stands task P i = some (.inside token (some (s.key w, o))) ∧ ∀ v ∈ o, v < value := by
  obtain same | ⟨value, hevent, hvalue⟩ := timed_ints step.timed (s.key w)
  · exact .inl same
  right
  obtain ⟨now, actor, e⟩ := mv
  obtain rfl : e = _ := hevent
  cases actor with
  | job j => exact nomatch sound.meek step rfl
  | tick i =>
    obtain ⟨st, st', hP, he, -⟩ := sound.conduct step rfl
    cases conducts_of_conduct he with
    | work token read read' e unnamed untried write fresh =>
      obtain ⟨owned, below⟩ := write _ _ rfl
      replace below := below ⟨w, w.mem_all, rfl⟩
      have owner : task i = w.owner := by
        by_contra hne
        exact s.key_not_mem_owned hne owned
      obtain _ | ⟨k, o⟩ := read
      · exact below.elim
      · obtain ⟨rfl, below⟩ := below
        exact ⟨i, value, token, o, rfl, rfl, hvalue, owner, hP, below⟩

theorem token_mem_of_step (step : P.Step mv Q) {i : Fin n}
    (hi : token ∈ (Q.ticks i).events.filterMap Event.token?) :
    token ∈ (P.ticks i).events.filterMap Event.token? ∨
      mv.actor = .tick i ∧ token ∈ mv.event.token? := by
  obtain same | ⟨actor, more⟩ := events_of_step step i
  · exact .inl (same ▸ hi)
  · rw [more, List.filterMap_append, List.mem_append] at hi
    exact hi.imp id fun hi => ⟨actor, by simpa using hi⟩

theorem Guarded.apart_step (h : s.Guarded task P) (new : s.TokensNew P mv) (step : P.Step mv Q)
    {i k : Fin n} (hi : token ∈ (Q.ticks i).events.filterMap Event.token?)
    (hk : token ∈ (Q.ticks k).events.filterMap Event.token?) : i = k := by
  obtain hi | ⟨hi, ht⟩ := token_mem_of_step step hi
  · obtain hk | ⟨hk, ht⟩ := token_mem_of_step step hk
    · exact h.apart i k token hi hk
    · exact absurd hi ((new token ht).1 i)
  · obtain hk | ⟨hk, -⟩ := token_mem_of_step step hk
    · exact absurd hk ((new token ht).1 k)
    · rw [hi] at hk
      exact Actor.tick.inj hk

theorem Guarded.named_step (h : s.Guarded task P) (sound : s.Sound task P)
    (new : s.TokensNew P mv) (step : P.Step mv Q) {i : Fin n}
    (hi : s.stands task Q i = some (.named token)) (t : Task) :
    (Q.memory.leases (s.lockKey t)).map Held.token ≠ some token := by
  intro lease
  by_cases hact : mv.actor = .tick i
  · -- The token is the one that the move gives it.
    obtain ⟨st, st', hP, he, hQ⟩ := sound.conduct step hact
    obtain rfl := Option.some.inj (hQ.symm.trans hi)
    generalize hevent : mv.event = e at he
    cases conducts_of_conduct he with
    | name =>
      obtain ⟨-, unheld⟩ := new token (by rw [hevent]; rfl)
      obtain held | ⟨k, hk, named⟩ := lease_token_of_step sound step lease
      · exact unheld t t.mem_all held
      · obtain rfl := Actor.tick.inj (hact.symm.trans hk)
        cases hP.symm.trans named
  · rw [stands_of_ne step hact] at hi
    obtain held | ⟨k, hk, named⟩ := lease_token_of_step sound step lease
    · exact h.named i token hi t held
    · obtain rfl := h.apart i k token (token_mem_of_named hi) (token_mem_of_named named)
      exact hact hk

theorem Guarded.read_step (h : s.Guarded task P) (sound : s.Sound task P)
    (untaken : s.LockUntaken task P mv) (step : P.Step mv Q) {i : Fin n} {w : Watermark}
    {o : Option UInt64} (hi : s.stands task Q i = some (.inside token (some (s.key w, o))))
    (owner : task i = w.owner)
    (lease : (Q.memory.leases (s.lockKey (task i))).map Held.token = some token) :
    Q.memory.ints (s.key w) = o := by
  by_cases hact : mv.actor = .tick i
  · -- It has read the number by this very move.
    obtain ⟨st, st', -, he, hQ⟩ := sound.conduct step hact
    obtain rfl := Option.some.inj (hQ.symm.trans hi)
    generalize hevent : mv.event = e at he
    cases conducts_of_conduct he with
    | work _ read read' e unnamed untried write fresh =>
      rw [fresh _ _ rfl] at hevent
      obtain ⟨same, found⟩ := timed_found (hevent ▸ step.timed)
      rw [same, found]
  rw [stands_of_ne step hact] at hi
  have mine := token_mem_of_inside hi
  obtain held | ⟨k, hk, named⟩ := lease_token_of_step sound step lease
  · obtain same | ⟨k, value, token', o', hk, hwrite, -, owner', stands', -⟩ :=
      watermark_of_step sound step w
    · rw [same]
      exact h.read i token w o hi owner held
    · -- The tick that writes is the last to have taken the lock, and so is this one.
      have lease := untaken k hk ⟨w, w.mem_all, by rw [hwrite]; rfl⟩
      rw [holder?, stands', owner', ← owner, held] at lease
      obtain rfl : token = token' := Option.some.inj lease
      obtain rfl := h.apart i k token mine (token_mem_of_inside stands')
      exact absurd hk hact
  · obtain rfl := h.apart i k token mine (token_mem_of_named named)
    exact absurd hk hact

theorem Guarded.step (h : s.Guarded task P) (sound : s.Sound task P) (new : s.TokensNew P mv)
    (untaken : s.LockUntaken task P mv) (step : P.Step mv Q) : s.Guarded task Q where
  apart _ _ _ hi hk := h.apart_step new step hi hk
  named _ _ hi t := h.named_step sound new step hi t
  read _ _ _ _ hi owner lease := h.read_step sound untaken step hi owner lease

end Steps

variable {now : Nat} {m : Memory} {ms : List (Move n)} {w : Watermark} {a b : UInt64}

theorem guarded_of_reaches (run : Reaches (s.together task now m)
    (fun P mv => s.TokensNew P mv ∧ s.LockUntaken task P mv) ms P) : s.Guarded task P := by
  induction run with
  | start => exact ⟨fun _ _ _ h => (nomatch h), fun _ _ h => (nomatch h), fun _ _ _ _ h => (nomatch h)⟩
  | step before ok step ih => exact ih.step (.of_reaches before) ok.1 ok.2 step

theorem watermark_grows (run : Reaches (s.together task now m)
      (fun P mv => s.TokensNew P mv ∧ s.LockUntaken task P mv) ms P)
    (untaken : s.LockUntaken task P mv) (step : P.Step mv Q)
    (ha : P.memory.ints (s.key w) = some a) :
    ∃ b, Q.memory.ints (s.key w) = some b ∧ a ≤ b := by
  obtain same | ⟨i, value, token, o, hi, hwrite, hvalue, owner, stands, below⟩ :=
    watermark_of_step (.of_reaches run) step w
  · exact ⟨a, same.trans ha, UInt64.le_refl a⟩
  · have lease := untaken i hi ⟨w, w.mem_all, by rw [hwrite]; rfl⟩
    rw [holder?, stands] at lease
    have found := (guarded_of_reaches run).read i token w o stands owner lease
    have lt : a < value := below a (found.symm.trans ha)
    exact ⟨value, hvalue, UInt64.le_of_lt lt⟩

/-- Whatever happens to leases, a watermark stays, and it is replaced by a smaller number only by a
tick of its own task that has just read another number there. As long as nobody takes a lock from a
tick that is still going to write, it is not replaced by a smaller one at all. -/
theorem watermark_grows_or_stale {allowed : Replicas n → Move n → Prop}
    (run : Reaches (s.together task now m) allowed ms P) (ok : allowed P mv) (step : P.Step mv Q)
    (ha : P.memory.ints (s.key w) = some a) :
    ∃ b, Q.memory.ints (s.key w) = some b ∧
      (a ≤ b ∨ ∃ i token o, mv.actor = .tick i ∧ mv.event.write? = some (s.key w, b) ∧
        task i = w.owner ∧ s.stands task P i = some (.inside token (some (s.key w, o))) ∧
          o ≠ some a) ∧
      ((∀ P mv, allowed P mv → s.TokensNew P mv ∧ s.LockUntaken task P mv) → a ≤ b) := by
  have grows : (∀ P mv, allowed P mv → s.TokensNew P mv ∧ s.LockUntaken task P mv) →
      ∀ b, Q.memory.ints (s.key w) = some b → a ≤ b := by
    intro sane b hb
    obtain ⟨b', hb', le⟩ := watermark_grows (run.mono sane) (sane P mv ok).2 step ha
    obtain rfl := Option.some.inj (hb.symm.trans hb')
    exact le
  obtain same | ⟨i, value, token, o, hi, hwrite, hvalue, owner, stands, below⟩ :=
    watermark_of_step (.of_reaches run) step w
  · have ha' := same.trans ha
    exact ⟨a, ha', .inl (UInt64.le_refl a), fun sane => grows sane a ha'⟩
  · refine ⟨value, hvalue, ?_, fun sane => grows sane value hvalue⟩
    by_cases ho : o = some a
    · exact .inl (UInt64.le_of_lt (below a ho))
    · exact .inr ⟨i, token, o, hi, hwrite, owner, stands, ho⟩

open Simulation

/-- The first tick sees the head at 50 and reads the watermark. While the store is out of its reach
its lease runs out, and the second tick moves the watermark to 100. -/
def lateCalls : List (Call 2) :=
  List.replicate 8 { actor := .tick 0, chain := fun c => { c with head := 50 } } ++
    [{ actor := .job 0 }, { actor := .job 0, later := 3400000000 },
      { actor := .job 0, cutOff := true }, { actor := .job 0, later := 3400000000 },
      { actor := .job 0, cutOff := true }, { actor := .tick 1, later := 3400000000 }] ++
    List.replicate 14 { actor := .tick 1, chain := fun c => { c with head := 100 } }

def lateTicks : List (Replicas 2 × Move 2) × Replicas 2 × World :=
  perform lateCalls (plainSetup.together (fun _ => .maturity) 0 .empty) quietWorld

theorem reaches_lateTicks : Reaches (plainSetup.together (fun _ => .maturity) 0 .empty)
      (fun P mv => plainSetup.TokensNew P mv ∧ plainSetup.LockUntaken (fun _ => .maturity) P mv)
      (lateTicks.1.map Prod.snd) lateTicks.2.1 ∧
    lateTicks.2.1.memory = lateTicks.2.2.store.memory ∧ lateTicks.2.1.now ≤ lateTicks.2.2.now :=
  reaches_perform lateCalls .start rfl (Nat.le_refl _) (by decide +kernel)

theorem ints_lateTicks : lateTicks.2.1.memory.ints (plainSetup.key .head) = some 100 := by
  decide +kernel

theorem step_lateTicks {a : Actor 2} {write : Option (String × UInt64)} {head : Option UInt64}
    (h : (move lateTicks.2.1 lateTicks.2.2 a).map (fun x => (x.1.write?, x.1.token?,
      x.2.1.memory.ints (plainSetup.key .head))) = some (write, none, head)) :
    ∃ e Q, lateTicks.2.1.Step ⟨lateTicks.2.2.now, a, e⟩ Q ∧ e.write? = write ∧ e.token? = none ∧
      Q.memory.ints (plainSetup.key .head) = head := by
  obtain ⟨⟨e, Q, v⟩, moved, hx⟩ := Option.map_eq_some_iff.1 h
  obtain ⟨-, memory, now⟩ := reaches_lateTicks
  simp only [Prod.mk.injEq] at hx
  exact ⟨e, Q, (step_move memory now moved).1, hx⟩

theorem lowering_lateTicks : ∃ e Q, lateTicks.2.1.Step ⟨lateTicks.2.2.now, .tick 0, e⟩ Q ∧
    e.write? = some (plainSetup.key .head, 50) ∧ e.token? = none ∧
      Q.memory.ints (plainSetup.key .head) = some 50 :=
  step_lateTicks (by decide +kernel)

theorem release_lateTicks : ∃ e Q, lateTicks.2.1.Step ⟨lateTicks.2.2.now, .tick 1, e⟩ Q ∧
    e.write? = none ∧ e.token? = none ∧ Q.memory.ints (plainSetup.key .head) = some 100 :=
  step_lateTicks (by decide +kernel)

/-- The first tick puts the head back to 50: the last it has read is that there was none. The
release of the second tick, which still has its lock, changes nothing. -/
theorem watermark_grows_or_stale_lateTicks :
    (∃ e Q, lateTicks.2.1.Step ⟨lateTicks.2.2.now, .tick 0, e⟩ Q ∧
      Q.memory.ints (plainSetup.key .head) = some 50 ∧ ∃ i token o,
        plainSetup.stands (fun _ => .maturity) lateTicks.2.1 i =
          some (.inside token (some (plainSetup.key .head, o))) ∧ o ≠ some 100) ∧
    ∃ e Q, lateTicks.2.1.Step ⟨lateTicks.2.2.now, .tick 1, e⟩ Q ∧
      ∃ b, Q.memory.ints (plainSetup.key .head) = some b ∧ 100 ≤ b := by
  constructor
  · obtain ⟨e, Q, step, -, -, head⟩ := lowering_lateTicks
    have run : Reaches (plainSetup.together (fun _ => .maturity) 0 .empty) (fun _ _ => True)
        (lateTicks.1.map Prod.snd) lateTicks.2.1 := reaches_lateTicks.1.mono fun _ _ _ => trivial
    obtain ⟨b, hb, grows | ⟨i, token, o, -, -, -, stands, stale⟩, -⟩ :=
      watermark_grows_or_stale run trivial step ints_lateTicks
    · obtain rfl := Option.some.inj (hb.symm.trans head)
      exact absurd grows (by decide)
    · exact ⟨e, Q, step, head, i, token, o, stands, stale⟩
  · obtain ⟨e, Q, step, hwrite, htoken, -⟩ := release_lateTicks
    have ok : plainSetup.TokensNew lateTicks.2.1 ⟨lateTicks.2.2.now, .tick 1, e⟩ ∧
        plainSetup.LockUntaken (fun _ => .maturity) lateTicks.2.1
          ⟨lateTicks.2.2.now, .tick 1, e⟩ := by
      refine ⟨fun token ht => ?_, fun i _ ⟨w, _, hw⟩ => ?_⟩
      · rw [htoken] at ht
        cases ht
      · rw [hwrite] at hw
        cases hw
    obtain ⟨b, hb, -, grows⟩ := watermark_grows_or_stale reaches_lateTicks.1 ok step ints_lateTicks
    exact ⟨e, Q, step, b, hb, grows fun _ _ h => h⟩

/-- New tokens alone do not keep watermarks from being lowered. -/
theorem not_watermark_grows : ¬ ∀ (n : Nat) (s : Setup) (task : Fin n → Task) (now : Nat)
    (m : Memory) (ms : List (Move n)) (P Q : Replicas n) (mv : Move n) (w : Watermark)
    (a b : UInt64), Reaches (s.together task now m) (fun P mv => s.TokensNew P mv) ms P →
      s.TokensNew P mv → P.Step mv Q → P.memory.ints (s.key w) = some a →
        Q.memory.ints (s.key w) = some b → a ≤ b := by
  intro claim
  obtain ⟨e, Q, step, -, htoken, head⟩ := lowering_lateTicks
  have new : plainSetup.TokensNew lateTicks.2.1 ⟨lateTicks.2.2.now, .tick 0, e⟩ := by
    intro token ht
    rw [htoken] at ht
    cases ht
  have le := claim 2 plainSetup (fun _ => .maturity) 0 .empty _ _ Q _ .head 100 50
    (reaches_lateTicks.1.mono fun _ _ ok => ok.1) new step ints_lateTicks head
  exact absurd le (by decide)

end Setup
end BridgeNotifier
