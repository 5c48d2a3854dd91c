import BridgeNotifier.Proofs.Execution
import BridgeNotifier.Proofs.Ownership
set_option autoImplicit false

/-!
# The conduct of ticks

What a tick asks for, whatever it is answered. It takes a token and tries its lock; only under the
lock it works, and giving the lock up is the last thing it does. A watermark that it writes it has
read with the request before, as smaller or as never written.
-/
namespace BridgeNotifier

/-- How far a tick has come with its lock, and under the lock the number that it has just read. -/
inductive Standing where
  | fresh
  | named (token : String)
  | refused
  | inside (token : String) (read : Option (String × Option UInt64))
  | left
  deriving DecidableEq, Repr

namespace Standing

def holder? : Standing → Option String
  | .inside token _ => some token
  | _ => none

def entered : Standing → Bool
  | .inside .. | .left => true
  | _ => false

end Standing

def Below (key : String) (value : UInt64) : Option (String × Option UInt64) → Prop
  | some (k, o) => k = key ∧ ∀ v ∈ o, v < value
  | none => False

instance (key : String) (value : UInt64) : ∀ read, Decidable (Below key value read)
  -- the number in the option is looked at, not every number there is
  | some (k, o) => @instDecidableAnd (k = key) (∀ v ∈ o, v < value) inferInstance
      (Option.decidableForallMem o)
  | none => inferInstanceAs (Decidable False)

def Request.isWork : Request → Bool
  | .store (.push _ _) | .store (.popOldest _) | .store (.length _) => true
  | .chain _ | .records _ | .depth | .sampleClock | .measure _ | .launch _ _ => true
  | .hold _ | .letGo _ => true
  | _ => false

def Request.lockKey? : Request → Option String
  | .store (.tryLock key _ _) | .store (.extendLock key _ _) | .store (.releaseLock key _) => some key
  | _ => none

namespace Setup

variable (s : Setup) (t : Task)

/-- A task writes under its own keys, and a watermark only above what it has just read of it. -/
def MayWrite (key : String) (value : UInt64) (read : Option (String × Option UInt64)) : Prop :=
  key ∈ s.owned t ∧ ((∃ w ∈ Watermark.all, s.key w = key) → Below key value read)

instance (key : String) (value : UInt64) (read : Option (String × Option UInt64)) :
    Decidable (s.MayWrite t key value read) :=
  inferInstanceAs (Decidable (_ ∧ (_ → _)))

/-- The standing of a tick after an event, if the tick may come to that event. -/
def conduct : Standing → Event → Option Standing
  | .fresh, ⟨.token, token⟩ => some (.named token)
  | .named token, ⟨.store (.tryLock key held _), taken⟩ =>
    if key = s.lockKey t ∧ held = token then
      match taken with
      | .ok true => some (.inside token none)
      | _ => some .refused
    else none
  | .inside token read, ⟨.store c, x⟩ =>
    match c, x with
    | .getInt key, .ok v => some (.inside token (some (key, v)))
    | .getInt _, .error _ => some (.inside token none)
    | .setInt key value, _ => if s.MayWrite t key value read then some (.inside token none) else none
    | .releaseLock key held, _ => if key = s.lockKey t ∧ held = token then some .left else none
    | c, _ => if (Request.store c).isWork then some (.inside token none) else none
  | .inside token _, ⟨r, _⟩ => if r.isWork then some (.inside token none) else none
  | _, _ => none

def standing (es : List Event) : Option Standing :=
  es.foldl (fun o e => o.bind (s.conduct t · e)) (some .fresh)

theorem standing_concat (es : List Event) (e : Event) :
    s.standing t (es ++ [e]) = (s.standing t es).bind (s.conduct t · e) := by
  simp [standing]

/-- The steps of `conduct`, one constructor for each way to stand with the lock. -/
inductive Conducts : Standing → Event → Standing → Prop where
  | name (token : String) : Conducts .fresh ⟨.token, token⟩ (.named token)
  | enter (token : String) (ttl : Interval) :
      Conducts (.named token) ⟨.store (.tryLock (s.lockKey t) token ttl), .ok true⟩
        (.inside token none)
  | refuse (token : String) (ttl : Interval) (x : Except Error Bool) (hx : x ≠ .ok true) :
      Conducts (.named token) ⟨.store (.tryLock (s.lockKey t) token ttl), x⟩ .refused
  | work (token : String) (read read' : Option (String × Option UInt64)) (e : Event)
      (unnamed : e.request ≠ .token)
      (untried : ∀ key held ttl, e.request ≠ .store (.tryLock key held ttl))
      (write : ∀ key value, e.request = .store (.setInt key value) → s.MayWrite t key value read)
      (fresh : ∀ key v, read' = some (key, v) → e = ⟨.store (.getInt key), .ok v⟩) :
      Conducts (.inside token read) e (.inside token read')
  | leave (token : String) (read : Option (String × Option UInt64)) (x : Except Error Bool) :
      Conducts (.inside token read) ⟨.store (.releaseLock (s.lockKey t) token), x⟩ .left

variable {s t} in
theorem conducts_of_conduct {st st' : Standing} {e : Event} (h : s.conduct t st e = some st') :
    s.Conducts t st e st' := by
  obtain ⟨r, x⟩ := e
  have plain : ∀ {token : String} {read : Option (String × Option UInt64)}, r.isWork = true →
      s.Conducts t (.inside token read) ⟨r, x⟩ (.inside token none) := by
    intro token read hr
    refine .work token read none _ ?_ ?_ ?_ fun _ _ h => nomatch h
    · rintro rfl
      cases hr
    · rintro key held ttl rfl
      cases hr
    · rintro key value rfl
      cases hr
  cases st with
  | fresh =>
    cases r with
    | token =>
      obtain rfl := Option.some.inj h
      exact .name x
    | _ => cases h
  | named token =>
    cases r with
    | store c =>
      cases c with
      | tryLock key held ttl =>
        simp only [conduct, Option.ite_none_right_eq_some] at h
        obtain ⟨⟨rfl, rfl⟩, h⟩ := h
        rcases x with err | _ | _
        · obtain rfl := Option.some.inj h
          exact .refuse held ttl _ (by simp)
        · obtain rfl := Option.some.inj h
          exact .refuse held ttl _ (by simp)
        · obtain rfl := Option.some.inj h
          exact .enter held ttl
      | _ => cases h
    | _ => cases h
  | inside token read =>
    cases r with
    | store c =>
      cases c with
      | getInt key =>
        cases x with
        | ok v =>
          obtain rfl := Option.some.inj h
          refine .work token read _ _ (by simp) (by simp) (by simp) fun k o hk => ?_
          cases hk
          rfl
        | error err =>
          obtain rfl := Option.some.inj h
          exact .work token read none _ (by simp) (by simp) (by simp) fun _ _ h => nomatch h
      | setInt key value =>
        have hw : s.MayWrite t key value read ∧ .inside token none = st' := by
          cases x <;> simpa [conduct, Option.ite_none_right_eq_some] using h
        obtain ⟨may, rfl⟩ := hw
        refine .work token read none _ (by simp) (by simp) ?_ fun _ _ h => nomatch h
        rintro k v hk
        cases hk
        exact may
      | releaseLock key held =>
        have hw : (key = s.lockKey t ∧ held = token) ∧ .left = st' := by
          cases x <;> simpa [conduct, Option.ite_none_right_eq_some] using h
        obtain ⟨⟨rfl, rfl⟩, rfl⟩ := hw
        exact .leave held read x
      | push key timestamp | popOldest key | length key =>
        obtain rfl : .inside token none = st' := by cases x <;> exact Option.some.inj h
        exact plain rfl
      | tryLock key held ttl | extendLock key held ttl => cases x <;> cases h
    | chain c | records c | depth | sampleClock | measure m | launch d n | hold l | letGo l =>
      obtain rfl := Option.some.inj h
      exact plain rfl
    | chainIds | millis | instant | token | requestId | send e | pause i st => cases h
  | refused => cases h
  | left => cases h

variable {s t} in
theorem lockKey_of_conduct {st st' : Standing} {e : Event} (h : s.conduct t st e = some st') :
    ∀ key ∈ e.request.lockKey?, key = s.lockKey t := by
  obtain ⟨r, x⟩ := e
  intro key hkey
  cases conducts_of_conduct h with
  | name token => cases hkey
  | enter token ttl => exact (Option.some.inj hkey).symm
  | refuse token ttl => exact (Option.some.inj hkey).symm
  | leave token read => exact (Option.some.inj hkey).symm
  | work token read read' e unnamed untried =>
    cases r with
    | store c =>
      cases c with
      | tryLock k held ttl => exact absurd rfl (untried k held ttl)
      | releaseLock k held | extendLock k held ttl => cases x <;> simp [conduct, Request.isWork] at h
      | getInt k | setInt k v | push k timestamp | popOldest k | length k => cases hkey
    | _ => cases hkey

section Standings
variable {s t} {es : List Event}

theorem standing_concat_eq {st' : Standing} (h : s.standing t es = some st') :
    es = [] ∧ st' = .fresh ∨
      ∃ before e st, es = before ++ [e] ∧ s.standing t before = some st ∧ s.Conducts t st e st' := by
  obtain rfl | ⟨before, e, rfl⟩ := List.eq_nil_or_concat es
  · exact .inl ⟨rfl, (Option.some.inj h).symm⟩
  · rw [List.concat_eq_append, standing_concat, Option.bind_eq_some_iff] at h
    obtain ⟨st, hst, he⟩ := h
    exact .inr ⟨before, e, st, List.concat_eq_append, hst, conducts_of_conduct he⟩

theorem standing_fresh (h : s.standing t es = some .fresh) : es = [] := by
  obtain ⟨rfl, -⟩ | ⟨before, e, st, rfl, -, he⟩ := standing_concat_eq h
  · rfl
  · cases he

theorem standing_named {token : String} (h : s.standing t es = some (.named token)) :
    es = [⟨.token, token⟩] := by
  obtain ⟨-, h⟩ | ⟨before, e, st, rfl, hst, he⟩ := standing_concat_eq h
  · cases h
  · cases he with
    | name =>
      obtain rfl := standing_fresh hst
      rfl

theorem standing_refused (h : s.standing t es = some .refused) : ∃ token ttl taken,
    es = [⟨.token, token⟩, ⟨.store (.tryLock (s.lockKey t) token ttl), taken⟩] := by
  obtain ⟨-, h⟩ | ⟨before, e, st, rfl, hst, he⟩ := standing_concat_eq h
  · cases h
  · cases he with
    | refuse token ttl x hx =>
      obtain rfl := standing_named hst
      exact ⟨token, ttl, x, rfl⟩

theorem standing_left (h : s.standing t es = some .left) : ∃ before token x,
    es = before ++ [⟨.store (.releaseLock (s.lockKey t) token), x⟩] := by
  obtain ⟨-, h⟩ | ⟨before, e, st, rfl, -, he⟩ := standing_concat_eq h
  · cases h
  · cases he with
    | leave token read x => exact ⟨before, token, x, rfl⟩

theorem lockKey_of_standing {st : Standing} (h : s.standing t es = some st) :
    ∀ e ∈ es, ∀ key ∈ e.request.lockKey?, key = s.lockKey t := by
  generalize hl : es.length = n
  induction n generalizing es st with
  | zero =>
    obtain rfl := List.length_eq_zero_iff.1 hl
    exact fun e he => nomatch he
  | succ n ih =>
    obtain rfl | ⟨before, last, rfl⟩ := List.eq_nil_or_concat es
    · cases hl
    rw [List.concat_eq_append] at h hl ⊢
    rw [standing_concat, Option.bind_eq_some_iff] at h
    obtain ⟨st', hst, hlast⟩ := h
    intro e he key hkey
    obtain he | he := List.mem_append.1 he
    · exact ih hst (by simpa using hl) e he key hkey
    · obtain rfl := List.mem_singleton.1 he
      exact lockKey_of_conduct hlast key hkey

end Standings

def conducting : Surroundings (Option Standing) :=
  fun o e u => u = o.bind (s.conduct t · e)

end Setup

def Inside (token : String) (o : Option Standing) : Prop :=
  ∃ read, o = some (.inside token read)

def Contract.working (s : Setup) (t : Task) : Contract (Option Standing) where
  needs
    | .scan .., o => ∃ token, Inside token o
    | .feed s' f _ _, o => s' = s ∧ t = .feed f ∧ ∃ token, Inside token o
    | _, _ => False
  gives _ o _ u := ∀ token, Inside token o → Inside token u

namespace Setup
open Routine

variable {s : Setup} {t : Task} {α β : Type}

/-- A program that a tick can run under its lock, and what it comes to. -/
def Keeps (s : Setup) (t : Task) (p : Program α) (P : α → Prop) : Prop :=
  ∀ token o, Inside token o →
    p.Ensures (s.conducting t) (·.isSome = true) (Contract.working s t) o fun a u =>
      Inside token u ∧ P a

abbrev Works (s : Setup) (t : Task) (p : Routine α) (P : α → Prop) : Prop :=
  s.Keeps t p.run fun r => ∀ a, r = .ok a → P a

section Rules
variable {P : α → Prop} {Q : β → Prop}

theorem keeps_done {a : α} (h : P a) : s.Keeps t (.done a) P :=
  fun _ _ ho => ⟨ho, h⟩

theorem keeps_bind {p : Program α} {f : α → Program β} (hp : s.Keeps t p P)
    (hf : ∀ a, P a → s.Keeps t (f a) Q) : s.Keeps t (p.bind f) Q := by
  intro token o ho
  refine Program.ensures_bind ((hp token o ho).mono ?_)
  rintro a u ⟨hu, ha⟩
  exact hf a ha token u hu

theorem works_pure {a : α} (h : P a) : s.Works t (pure a) P := by
  refine keeps_done fun b hb => ?_
  cases hb
  exact h

theorem works_bind {p : Routine α} {f : α → Routine β} (hp : s.Works t p fun _ => True)
    (hf : ∀ a, s.Works t (f a) Q) : s.Works t (p >>= f) Q := by
  refine keeps_bind (f := ExceptT.bindCont f) hp fun r _ => ?_
  cases r with
  | ok a => exact hf a
  | error e => exact keeps_done fun _ h => nomatch h

theorem works_lift {p : Program α} (hp : s.Keeps t p fun _ => True) :
    s.Works t (ExceptT.lift p) fun _ => True :=
  keeps_bind hp fun _ _ => keeps_done fun _ _ => trivial

theorem inside_of_work {token : String} {o : Option Standing} {r : Request} {x : r.Reply}
    (hr : r.isWork = true) (ho : Inside token o) : Inside token (o.bind (s.conduct t · ⟨r, x⟩)) := by
  obtain ⟨read, rfl⟩ := ho
  refine ⟨none, ?_⟩
  cases r with
  | store c => cases c <;> first | rfl | cases hr
  | chain c | records c | depth | sampleClock | measure m | launch d n | hold l | letGo l => rfl
  | chainIds | millis | instant | token | requestId | send e | pause i st => cases hr

theorem inside_isSome {token : String} {o : Option Standing} (ho : Inside token o) :
    o.isSome = true := by
  obtain ⟨read, rfl⟩ := ho
  rfl

theorem keeps_request {r : Request} (hr : r.isWork = true) :
    s.Keeps t (Program.request r) fun _ => True := by
  rintro token o ho x u rfl
  exact ⟨inside_isSome (inside_of_work hr ho), inside_of_work hr ho, trivial⟩

theorem works_store {c : StoreCall} (hc : (Request.store c).isWork = true) :
    s.Works t (.store c) fun _ => True := by
  rintro token o ho x u rfl
  exact ⟨inside_isSome (inside_of_work hc ho), inside_of_work hc ho, fun _ _ => trivial⟩

theorem works_chain {c : ChainCall} : s.Works t (.chain c) fun _ => True := by
  rintro token o ho x u rfl
  exact ⟨inside_isSome (inside_of_work rfl ho), inside_of_work rfl ho, fun _ _ => trivial⟩

theorem works_records {c : RecordCall} : s.Works t (.records c) fun _ => True := by
  rintro token o ho x u rfl
  exact ⟨inside_isSome (inside_of_work rfl ho), inside_of_work rfl ho, fun _ _ => trivial⟩

theorem works_measure {m : Measurement} : s.Works t (.measure m) fun _ => True :=
  works_lift (keeps_request rfl)

theorem keeps_loop {l : Loop}
    (hl : ∀ o, (∃ token, Inside token o) → (Contract.working s t).needs l o) :
    s.Keeps t (Program.loop l) fun _ => True :=
  fun token o ho => ⟨hl o ⟨token, ho⟩, fun _ _ _ hu => ⟨hu token ho, trivial⟩⟩

theorem works_ofProgram {p : Program (Except Error α)} (hp : s.Keeps t p fun _ => True) :
    s.Works t (ofProgram p) fun _ => True :=
  fun token o ho => (hp token o ho).mono fun _ _ h => ⟨h.1, fun _ _ => trivial⟩

end Rules

theorem key_mem_owned (w : Watermark) : s.key w ∈ s.owned w.owner := by
  cases w <;> simp [owned, Watermark.owner, Role.batch, Role.ceiling, Feed.watermark]

theorem works_getInt {key : String} : s.Works t (.store (.getInt key)) fun _ => True := by
  rintro token o ⟨read, rfl⟩ x u rfl
  cases x with
  | ok v => exact ⟨rfl, ⟨_, rfl⟩, fun _ _ => trivial⟩
  | error e => exact ⟨rfl, ⟨_, rfl⟩, fun _ _ => trivial⟩

def Follows (s : Setup) (t : Task) (key : String) (v : Option UInt64) (p : Routine β)
    (Q : β → Prop) : Prop :=
  ∀ token, p.run.Ensures (s.conducting t) (·.isSome = true) (Contract.working s t)
    (some (.inside token (some (key, v)))) fun r u => Inside token u ∧ ∀ a, r = .ok a → Q a

theorem works_getInt_bind {key : String} {f : Option UInt64 → Routine β} {Q : β → Prop}
    (hf : ∀ v, s.Follows t key v (f v) Q) : s.Works t (.store (.getInt key) >>= f) Q := by
  rintro token o ⟨read, rfl⟩ x u rfl
  cases x with
  | ok v => exact ⟨rfl, hf v token⟩
  | error e => exact ⟨rfl, ⟨_, rfl⟩, fun _ h => nomatch h⟩

theorem follows_pure {key : String} {v : Option UInt64} {a : β} :
    s.Follows t key v (pure a) fun _ => True :=
  fun _ => ⟨⟨_, rfl⟩, fun _ _ => trivial⟩

theorem follows_setInt {w : Watermark} {v : Option UInt64} {value : UInt64} {a : β}
    (hw : w.owner = t) (hv : ∀ x ∈ v, x < value) :
    s.Follows t (s.key w) v (do Routine.store (.setInt (s.key w) value); return a)
      fun _ => True := by
  subst hw
  have may : s.MayWrite w.owner (s.key w) value (some (s.key w, v)) :=
    ⟨key_mem_owned w, fun _ => ⟨rfl, hv⟩⟩
  rintro token x u rfl
  have next : s.conduct w.owner (.inside token (some (s.key w, v)))
      ⟨.store (.setInt (s.key w) value), x⟩ = some (.inside token none) := if_pos may
  have hu : Inside token ((some (.inside token (some (s.key w, v)))).bind
      (s.conduct w.owner · ⟨.store (.setInt (s.key w) value), x⟩)) := ⟨none, next⟩
  cases x with
  | ok _ => exact ⟨inside_isSome hu, hu, fun _ _ => trivial⟩
  | error e => exact ⟨inside_isSome hu, hu, fun _ _ => trivial⟩

theorem works_advance {w : Watermark} {value : UInt64} (hw : w.owner = t) :
    s.Works t (Checkpoint.advance s.config.namespaceName w value) fun _ => True := by
  simp only [Checkpoint.advance, Checkpoint.get, Checkpoint.get?, bind_assoc, pure_bind]
  refine works_getInt_bind fun v => ?_
  by_cases hlt : value < v.getD 0
  · rw [if_pos hlt]
    exact follows_pure
  · rw [if_neg hlt]
    by_cases heq : value = v.getD 0
    · rw [if_pos heq]
      exact follows_pure
    · -- The write comes right after the read, so what was read stands there.
      rw [if_neg heq]
      refine follows_setInt hw fun x hx => ?_
      obtain rfl := Option.mem_def.1 hx
      exact UInt64.lt_of_le_of_ne (UInt64.not_lt.1 hlt) (Ne.symm heq)

theorem works_seed {w : Watermark} {value : UInt64} (hw : w.owner = t) :
    s.Works t (Checkpoint.seed s.config.namespaceName w value) fun _ => True := by
  refine works_getInt_bind fun v => ?_
  cases v with
  | some x => exact follows_pure
  | none => exact follows_setInt hw fun x hx => nomatch hx

theorem works_setAverage {r : Role} {value : UInt64} :
    s.Works (.batch r) (.store (.setInt (s.estimator r).averageKey value)) fun _ => True := by
  rintro token o ⟨read, rfl⟩ x u rfl
  have may : s.MayWrite (.batch r) (s.estimator r).averageKey value read := by
    refine ⟨by simp [owned], fun ⟨w, _, hw⟩ => ?_⟩
    exact absurd hw.symm (s.averageKey_ne_key r w)
  have next : s.conduct (.batch r) (.inside token read)
      ⟨.store (.setInt (s.estimator r).averageKey value), x⟩ = some (.inside token none) := if_pos may
  exact ⟨inside_isSome ⟨none, next⟩, ⟨none, next⟩, fun _ _ => trivial⟩

theorem keeps_offer {d : Dispatcher} {n : Notice} : s.Keeps t (d.offer n) fun _ => True := by
  unfold Dispatcher.offer
  split
  · exact keeps_done trivial
  · split
    · exact keeps_bind (keeps_request rfl) fun _ _ => keeps_done trivial
    · exact keeps_bind (keeps_request rfl) fun _ _ => keeps_done trivial

theorem keeps_offerAll {d : Dispatcher} {ns : List Notice} :
    s.Keeps t (offerAll d ns) fun _ => True := by
  induction ns with
  | nil => exact keeps_done trivial
  | cons n ns ih =>
    exact keeps_bind keeps_offer fun _ _ => keeps_bind ih fun _ _ => keeps_done trivial

theorem works_scan {sc : Scan} : s.Works t sc.run fun _ => True := by
  unfold Scan.run
  split
  · exact works_pure trivial
  · exact works_ofProgram (keeps_loop fun _ ho => ho)

theorem works_page {sc : Scan} {offset : UInt64} {summary : ScanSummary} :
    s.Works t (sc.page offset summary) fun _ => True := by
  refine works_bind works_records fun rows => works_bind works_measure fun _ => ?_
  refine works_bind (works_lift keeps_offerAll) fun sent => ?_
  dsimp only
  split
  · exact works_pure trivial
  · exact works_ofProgram (keeps_loop fun _ ho => ho)

theorem works_announceClaims {rows : List (UInt64 × Claim)} :
    s.Works t (s.announceClaims rows) fun _ => True := by
  induction rows with
  | nil => exact works_pure trivial
  | cons row rows ih =>
    refine works_bind works_records fun d => ?_
    have rest : ∀ sent : Bool, s.Works t (do
        let n ← s.announceClaims rows
        return (if sent then 1 else 0) + n) fun _ => True :=
      fun _ => works_bind ih fun _ => works_pure trivial
    cases d with
    | none => exact works_bind (works_pure trivial) fun sent => rest sent
    | some d => exact works_bind (works_lift keeps_offer) fun sent => rest sent

theorem works_feedPage {f : Feed} {last : UInt64} : s.Works t (s.feedPage f last) fun _ => True := by
  cases f with
  | deposits =>
    refine works_bind works_records fun rows => ?_
    exact works_bind (works_lift keeps_offerAll) fun _ => works_pure trivial
  | claims =>
    refine works_bind works_records fun rows => ?_
    exact works_bind works_announceClaims fun _ => works_pure trivial

theorem works_feedLoop {f : Feed} {last dispatched : UInt64} (ht : t = .feed f) :
    s.Works t (ofProgram (Program.loop (.feed s f last dispatched))) fun _ => True :=
  works_ofProgram (keeps_loop fun _ ho => ⟨rfl, ht, ho⟩)

theorem works_feedRound {f : Feed} {last dispatched : UInt64} (ht : t = .feed f) :
    s.Works t (s.feedRound f last dispatched) fun _ => True := by
  have owner : f.watermark.owner = t := by
    subst ht
    cases f <;> rfl
  refine works_bind works_feedPage fun page => works_bind works_measure fun _ => ?_
  have left : ∀ last : UInt64, s.Works t (do
      if page.rows < s.pageSize.toUInt64 then return (last, dispatched + page.dispatched)
      ofProgram (Program.loop (.feed s f last (dispatched + page.dispatched)))) fun _ => True := by
    intro last
    split
    · exact works_pure trivial
    · exact works_feedLoop ht
  cases page.lastId with
  | none => exact works_bind (works_pure trivial) left
  | some id => exact works_bind (works_advance owner) fun _ => works_bind (works_pure trivial) left

theorem works_recordDuration {r : Role} :
    s.Works (.batch r) (s.recordDuration r) fun _ => True := by
  have sampled : ∀ now, s.Works (.batch r) ((s.estimator r).recordSample now) fun _ => True := by
    intro now
    refine works_bind (works_store rfl) fun length => ?_
    split
    · exact works_pure trivial
    · refine works_bind (works_store rfl) fun oldest => ?_
      split
      · exact works_pure trivial
      split
      · exact works_pure trivial
      · exact works_bind works_setAverage fun _ => works_pure trivial
  refine works_bind (works_lift (keeps_request rfl)) fun now => ?_
  refine works_bind (sampled (now / 1000)) fun outcome => ?_
  cases outcome with
  | filling n => exact works_pure trivial
  | overflow => exact works_pure trivial
  | accepted average => exact works_measure
  | rejected average => exact works_measure

theorem works_maturity : s.Works .maturity (s.sweep .maturity) (· ≠ .locked) := by
  refine works_bind (works_bind works_getInt fun _ => works_pure trivial) fun oldHead => ?_
  refine works_bind works_chain fun newHead => ?_
  dsimp only
  split
  · exact works_pure (by simp)
  refine works_bind (works_lift (keeps_request rfl)) fun depth => ?_
  refine works_bind works_getInt fun scanned => ?_
  have moved : ∀ n, s.Works .maturity (s.recordHead oldHead newHead n) (· ≠ .locked) := fun _ =>
    works_bind (works_advance rfl) fun _ => works_bind works_measure fun _ =>
      works_pure (by simp)
  cases matured? oldHead newHead depth scanned with
  | none => exact works_bind (works_pure trivial) moved
  | some range =>
    exact works_bind works_scan fun _ => works_bind (works_advance rfl) fun _ =>
      works_bind (works_pure trivial) moved

theorem works_batch {r : Role} : s.Works (.batch r) (s.sweep (.batch r)) (· ≠ .locked) := by
  have ceiling : r.ceiling.owner = .batch r := by cases r <;> rfl
  have batch : r.batch.owner = .batch r := by cases r <;> rfl
  refine works_bind works_chain fun latest => ?_
  refine works_bind (works_bind works_getInt fun _ => works_pure trivial) fun stored => ?_
  dsimp only
  split
  · exact works_pure (by simp)
  refine works_bind works_chain fun newCeiling => ?_
  refine works_bind (works_bind works_getInt fun _ => works_pure trivial) fun oldCeiling => ?_
  have recorded : ∀ n, s.Works (.batch r) (s.recordBatch r stored latest n) (· ≠ .locked) :=
    fun _ => works_bind (works_advance batch) fun _ => works_bind works_measure fun _ =>
      works_bind works_recordDuration fun _ => works_pure (by simp)
  have settled : ∀ n, s.Works (.batch r) (s.settleBatch r newCeiling stored latest n)
      (· ≠ .locked) := by
    intro n
    refine works_bind (works_advance ceiling) fun moved => ?_
    cases moved with
    | false => exact recorded n
    | true => exact works_bind works_measure fun _ => recorded n
  split
  · exact works_bind works_scan fun _ => works_bind (works_pure trivial) settled
  · exact works_bind (works_pure trivial) settled

theorem works_feed {f : Feed} : s.Works (.feed f) (s.sweep (.feed f)) (· ≠ .locked) := by
  have owner : f.watermark.owner = .feed f := by cases f <;> rfl
  refine works_bind works_getInt fun start => ?_
  cases start with
  | none =>
    have latest : s.Works (.feed f) (latestId f) fun _ => True := by
      cases f <;> exact works_records
    exact works_bind latest fun _ => works_bind (works_seed owner) fun _ => works_pure (by simp)
  | some start =>
    refine works_bind (works_feedLoop rfl) fun r => ?_
    obtain ⟨last, dispatched⟩ := r
    dsimp only
    split
    · exact works_pure (by simp)
    · exact works_bind works_measure fun _ => works_pure (by simp)

theorem works_sweep : s.Works t (s.sweep t) (· ≠ .locked) := by
  cases t with
  | maturity => exact works_maturity
  | batch r => exact works_batch
  | feed f => exact works_feed

theorem inside_unique {token token' : String} {o : Option Standing} (h : Inside token o)
    (h' : Inside token' o) : token' = token := by
  obtain ⟨read, rfl⟩ := h
  obtain ⟨read', h'⟩ := h'
  cases h'
  rfl

theorem working_kept : (Contract.working s t).Kept (s.conducting t) (·.isSome = true) := by
  have gives : ∀ {l : Loop} {o : Option Standing} {P : l.Result → Prop}, s.Keeps t l.body P →
      (∃ token, Inside token o) → l.body.Ensures (s.conducting t) (·.isSome = true)
        (Contract.working s t) o ((Contract.working s t).gives l o) := by
    rintro l o P hl ⟨token, ho⟩
    refine (hl token o ho).mono fun r u hu token' ho' => ?_
    obtain rfl := inside_unique ho ho'
    exact hu.1
  rintro (⟨sc, offset, summary⟩ | ⟨s', f, last, dispatched⟩ | ⟨l, deadline⟩ | ⟨s', t', i, deadline⟩)
    o - hn
  · exact gives (l := .scan sc offset summary) works_page hn
  · obtain ⟨rfl, ht, ho⟩ := hn
    exact gives (l := .feed s' f last dispatched) (works_feedRound ht) ho
  all_goals exact hn.elim

theorem conduct_tryLock {token : String} (taken : Except Error Bool) {ttl : Interval} :
    s.conduct t (.named token) ⟨.store (.tryLock (s.lockKey t) token ttl), taken⟩ =
      some (match taken with
        | .ok true => .inside token none
        | _ => .refused) := by
  rcases taken with e | _ | _ <;> simp [conduct]

theorem ensures_release {token : String} {ttl : Interval} {o : Option Standing}
    (ho : Inside token o) :
    (Lock.release ⟨s.lockKey t, token, ttl⟩).Ensures (s.conducting t) (·.isSome = true)
      (Contract.working s t) o fun _ u => u = some .left := by
  rintro ⟨⟩ u rfl
  have hu := inside_of_work (s := s) (t := t) (x := ())
    (r := .letGo ⟨s.lockKey t, token, ttl⟩) rfl ho
  refine ⟨inside_isSome hu, ?_⟩
  intro x v hv
  obtain ⟨read, hu⟩ := hu
  have released : v = some .left := by
    rw [hv, hu]
    simp [conduct]
  exact ⟨by rw [released]; rfl, released⟩

def Closed (o : Option Standing) : Prop :=
  o = some .refused ∨ o = some .left

/-- A tick keeps to its conduct and ends without the lock, and it answers that somebody else has the
lock only if it was refused. -/
theorem ensures_tick_conduct : (s.tick t).Ensures (s.conducting t) (·.isSome = true)
    (Contract.working s t) (fun _ o => Closed o) (some .fresh)
    fun outcome o => Closed o ∧ (outcome = .locked → o = some .refused) := by
  refine ensures_guarded (ensures_bind (ensures_lift ?_))
  intro token o ho
  replace ho : o = some (.named token) := ho
  subst ho
  refine ⟨rfl, ensures_bind (ensures_store fun taken o ho => ?_)⟩
  replace ho := Eq.trans ho (conduct_tryLock taken)
  subst ho
  refine ⟨rfl, ?_⟩
  rcases taken with e | _ | _
  · exact .inl rfl
  · exact ensures_pure ⟨.inl rfl, fun _ => rfl⟩
  have held : Inside token (some (.inside token none)) := ⟨none, rfl⟩
  refine ensures_bind (ensures_lift ((keeps_request rfl token _ held).mono ?_))
  rintro _ o ⟨held, -⟩
  refine ensures_pure ((works_sweep token o held).mono ?_)
  rintro r u ⟨hu, hr⟩
  refine (ensures_release hu).mono fun _ v hv => ?_
  cases r with
  | error e => exact .inr hv
  | ok outcome => exact ⟨.inr hv, fun h => absurd h (hr outcome rfl)⟩

variable {σ : Type} {S : Surroundings σ} {w v : σ} {es : List Event}
variable {p : Program (Except Error Outcome)}

theorem conducting_of_leads (run : (s.tick t).run.Leads S w es p v) :
    (s.tick t).run.Leads (s.conducting t) (some .fresh) es p (s.standing t es) :=
  (run.noted (fun o e => o.bind (s.conduct t · e)) (some .fresh)).map Prod.snd fun _ _ _ h => h.2

theorem conducted (run : (s.tick t).run.Leads S w es p v) : ∃ st, s.standing t es = some st ∧
    (p = .done (.ok .locked) → st = .refused) := by
  obtain ⟨kept, rest⟩ :=
    Program.Ensures.rest ensures_tick_conduct working_kept rfl (conducting_of_leads run)
  obtain ⟨st, hst⟩ := Option.isSome_iff_exists.1 kept
  refine ⟨st, hst, ?_⟩
  rintro rfl
  have refused := rest.2 rfl
  exact Option.some.inj (hst.symm.trans refused)

theorem closed_of_leads {r : Except Error Outcome} (run : (s.tick t).run.Leads S w es (.done r) v) :
    Closed (s.standing t es) := by
  have ended :=
    Program.Ensures.result ensures_tick_conduct working_kept rfl (conducting_of_leads run)
  cases r with
  | error err => exact ended
  | ok outcome => exact ended.1

end Setup

/-- Requests that change nothing of the shared store but the end of a lease. -/
def Request.isMeek : Request → Bool
  | .store (.getInt _) | .store (.extendLock _ _ _) => true
  | .store _ | .token => false
  | _ => true

def Event.starts : Event → List (Program Unit)
  | ⟨.launch d n, _⟩ => [d.deliver n]
  | ⟨.hold l, _⟩ => [l.keep]
  | _ => []

section Background

def Contract.renewals : Contract Bool where
  needs
    | .renewal _ _, _ => True
    | _, _ => False
  gives _ _ _ _ := True

def Surroundings.watched : Surroundings Bool :=
  fun b e c => c = (b && e.request.isMeek)

abbrev Program.Meek {α : Type} (p : Program α) : Prop :=
  p.Ensures Surroundings.watched (· = true) Contract.renewals true fun _ b => b = true

variable {α : Type}

theorem Program.meek_request {r : Request} (hr : r.isMeek = true) : (Program.request r).Meek := by
  rintro x b rfl
  exact ⟨hr, hr⟩

theorem Program.meek_bind {β : Type} {p : Program α} {f : α → Program β} (hp : p.Meek)
    (hf : ∀ a, (f a).Meek) : (p.bind f).Meek := by
  refine Program.ensures_bind (hp.mono ?_)
  rintro a b rfl
  exact hf a

theorem Lease.meek_renew (l : Lease) (deadline : Nat) : (l.renew deadline).Meek := by
  refine Program.meek_bind (Program.meek_request rfl) fun due => ?_
  cases due with
  | false => exact rfl
  | true =>
    refine Program.meek_bind (Program.meek_request rfl) fun x => ?_
    rcases x with e | _ | _
    · exact ⟨trivial, fun _ _ h _ => h⟩
    · exact rfl
    · exact ⟨trivial, fun _ _ h _ => h⟩

theorem Lease.meek_keep (l : Lease) : l.keep.Meek :=
  Program.meek_bind (Program.meek_request rfl) fun _ => ⟨trivial, fun _ _ h _ => h⟩

theorem Dispatcher.meek_minutes (d : Dispatcher) (deposit : Deposit) (now : UInt64) :
    (d.minutes deposit now).Meek := by
  unfold Dispatcher.minutes
  split
  · exact rfl
  · refine Program.meek_bind (Program.meek_bind ?_ fun r => ?_) fun _ => rfl
    · refine Program.meek_bind (Program.meek_request rfl) fun r => ?_
      rcases r with e | v
      · exact rfl
      · exact rfl
    · rcases r with e | _ | v
      · exact rfl
      · exact rfl
      · exact rfl

theorem Dispatcher.meek_deliver (d : Dispatcher) (n : Notice) : (d.deliver n).Meek := by
  have updated : (d.update n).Meek := by
    refine Program.meek_bind (Program.meek_request rfl) fun chains => ?_
    split
    · refine Program.meek_bind (Program.meek_request rfl) fun now => ?_
      exact Program.meek_bind (d.meek_minutes n.deposit now) fun _ => rfl
    · exact rfl
  refine Program.meek_bind updated fun u => ?_
  cases u with
  | none => exact rfl
  | some u =>
    refine Program.meek_bind (Program.meek_request rfl) fun id => ?_
    refine Program.meek_bind (Program.meek_request rfl) fun now => ?_
    refine Program.meek_bind (Program.meek_request rfl) fun result => ?_
    exact Program.meek_request rfl

theorem Contract.renewals_kept :
    Contract.renewals.Kept Surroundings.watched (· = true) := by
  rintro (⟨sc, offset, summary⟩ | ⟨s', f, last, dispatched⟩ | ⟨l, deadline⟩ | ⟨s', t', i, deadline⟩)
    b rfl hn
  · exact hn.elim
  · exact hn.elim
  · exact (l.meek_renew deadline).mono fun _ _ _ => trivial
  · exact hn.elim

theorem Event.meek_starts (e : Event) : ∀ p ∈ e.starts, p.Meek := by
  obtain ⟨r, x⟩ := e
  intro p hp
  cases r with
  | launch d n =>
    obtain rfl := List.mem_singleton.1 hp
    exact d.meek_deliver n
  | hold l =>
    obtain rfl := List.mem_singleton.1 hp
    exact l.meek_keep
  | _ => cases hp

theorem foldl_and_eq_true {es : List Event} {b : Bool}
    (h : es.foldl (fun b e => b && e.request.isMeek) b = true) :
    b = true ∧ ∀ e ∈ es, e.request.isMeek = true := by
  induction es generalizing b with
  | nil => exact ⟨h, fun e he => nomatch he⟩
  | cons e es ih =>
    obtain ⟨hb, hes⟩ := ih h
    obtain ⟨hb, he⟩ := Bool.and_eq_true_iff.1 hb
    exact ⟨hb, by simpa [he] using hes⟩

theorem Program.Meek.requests {σ : Type} {S : Surroundings σ} {p q : Program α} {w v : σ}
    {es : List Event} (hp : p.Meek) (run : p.Leads S w es q v) :
    ∀ e ∈ es, e.request.isMeek = true := by
  have noted := run.noted (fun b e => b && e.request.isMeek) true
  have watched := noted.map (T := Surroundings.watched) Prod.snd fun _ _ _ h => h.2
  have meek : es.foldl (fun b e => b && e.request.isMeek) true = true :=
    Program.Ensures.invariant (I := (· = true)) hp Contract.renewals_kept rfl watched
  exact (foldl_and_eq_true meek).2

end Background
end BridgeNotifier
