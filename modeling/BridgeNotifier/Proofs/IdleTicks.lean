import BridgeNotifier.Proofs.Completion
import BridgeNotifier.Proofs.NoTrace
import BridgeNotifier.Proofs.StillScans
import BridgeNotifier.Proofs.StillWorld
set_option autoImplicit false

namespace BridgeNotifier
open RecordTable

namespace Program

/-- As long as its requests are answered so, a program makes at most `n` of them, all of some kinds,
and ends with `Q`. -/
inductive Brief {α : Type} (answered : Event → Prop) (may : Request → Bool) (Q : α → Prop) :
    Nat → Program α → Prop where
  | done {n : Nat} {a : α} (h : Q a) : Brief answered may Q n (.done a)
  | ask {n : Nat} {r : Request} {k : r.Reply → Program α} (hr : may r = true)
      (rest : ∀ x, answered ⟨r, x⟩ → Brief answered may Q n (k x)) :
      Brief answered may Q (n + 1) (.ask r k)
  | call {n : Nat} {l : Loop} {k : l.Result → Program α}
      (rest : Brief answered may Q (n + 1) (l.body.bind k)) :
      Brief answered may Q (n + 1) (.call l k)

variable {σ α β : Type} {S : Surroundings σ} {answered : Event → Prop} {may : Request → Bool}
variable {P : α → Prop} {p q : Program α} {n m : Nat}

theorem Brief.le (h : Brief answered may P n p) (le : n ≤ m) : Brief answered may P m p := by
  induction h generalizing m with
  | done h => exact .done h
  | ask hr _ ih =>
    obtain ⟨more, rfl⟩ := Nat.exists_eq_add_of_le' le
    exact .ask hr fun x hx => ih x hx (Nat.le_add_left _ more)
  | call _ ih =>
    obtain ⟨more, rfl⟩ := Nat.exists_eq_add_of_le' le
    exact .call (ih le)

theorem brief_bind {Q : β → Prop} {f : α → Program β} (hp : Brief answered may P n p)
    (hf : ∀ a, P a → Brief answered may Q m (f a)) : Brief answered may Q (m + n) (p.bind f) := by
  induction hp with
  | done h => exact (hf _ h).le (Nat.le_add_right m _)
  | ask hr _ ih => exact .ask hr ih
  | call _ ih =>
    rw [bind_assoc] at ih
    exact .call ih

theorem brief_request {r : Request} {P : r.Reply → Prop} (hr : may r = true)
    (h : ∀ x, answered ⟨r, x⟩ → P x) : Brief answered may P 1 (Program.request r) :=
  .ask hr fun x hx => .done (h x hx)

theorem Brief.rest {s t : σ} {es : List Event} (h : Brief answered may P n p)
    (run : p.Leads S s es q t) (hes : ∀ e ∈ es, answered e) :
    es.length ≤ n ∧ (∀ e ∈ es, may e.request = true) ∧ Brief answered may P (n - es.length) q := by
  induction run generalizing n with
  | refl p s => exact ⟨Nat.zero_le n, List.forall_mem_nil _, h⟩
  | ask _ _ ih =>
    cases h with
    | ask hr rest =>
      obtain ⟨le, kinds, left⟩ := ih (rest _ (hes _ (by simp))) fun e he => hes e (by simp [he])
      refine ⟨Nat.succ_le_succ le, by simpa [hr] using kinds, ?_⟩
      rwa [List.length_cons, Nat.add_sub_add_right]
  | call _ ih =>
    cases h with
    | call rest => exact ih rest hes

theorem Brief.done_of_zero (h : Brief answered may P 0 p) : ∃ a, p = .done a := by
  cases h with
  | done h => exact ⟨_, rfl⟩

theorem Brief.result {a : α} (h : Brief answered may P n (.done a)) : P a := by
  cases h with
  | done h => exact h

end Program

namespace Routine

variable {σ α β : Type} {answered : Event → Prop} {may : Request → Bool} {fails : Prop}
variable {P : α → Prop} {n m : Nat}

def Comes (fails : Prop) (P : α → Prop) : Except Error α → Prop
  | .ok a => P a
  | .error _ => fails

abbrev Brief (answered : Event → Prop) (may : Request → Bool) (fails : Prop) (P : α → Prop)
    (n : Nat) (p : Routine α) : Prop :=
  Program.Brief answered may (Comes fails P) n p.run

theorem brief_pure {a : α} (h : P a) : Brief answered may fails P n (pure a : Routine α) :=
  .done h

theorem brief_bind {Q : β → Prop} {p : Routine α} {f : α → Routine β}
    (hp : Brief answered may fails P n p) (hf : ∀ a, P a → Brief answered may fails Q m (f a)) :
    Brief answered may fails Q (m + n) (p >>= f) := by
  refine Program.brief_bind (f := ExceptT.bindCont f) hp fun r hr => ?_
  cases r with
  | ok a => exact hf a hr
  | error e => exact .done hr

theorem brief_lift {p : Program α} (hp : Program.Brief answered may P n p) :
    Brief answered may fails P n (ExceptT.lift p) := by
  have lifted := Program.brief_bind (Q := Comes fails P) (m := 0) (f := fun a => .done (.ok a)) hp
    fun a ha => .done ha
  rwa [Nat.zero_add] at lifted

theorem brief_measure {k : Measurement} {P : Unit → Prop} (hk : may (.measure k) = true)
    (h : P ()) : Brief answered may fails P 1 (Routine.measure k) :=
  brief_lift (Program.brief_request hk fun _ _ => h)

end Routine

namespace Task

def stop : Task → Watermark
  | .maturity => .head
  | .batch r => r.batch
  | .feed f => f.watermark

def isFeed : Task → Bool
  | .feed _ => true
  | _ => false

def idles (t : Task) : Request → Bool
  | .store (.getInt _) | .chain _ => true
  | .records _ | .measure (.page _) => t.isFeed
  | r => r.isGuard

end Task

def Request.isDepth : Request → Bool
  | .depth => true
  | _ => false

namespace Answers

variable (a : Answers)

def stays (e : Event) : Prop :=
  e.request.isDepth = true ∨ a.agrees e

instance : DecidablePred a.stays :=
  fun _ => inferInstanceAs (Decidable (_ ∨ _))

/-- A task whose watermark stands so has nothing to do. -/
def Settled : Task → Option UInt64 → Prop
  | .maturity, x => a.chain .head ≤ x.getD 0
  | .batch r, x => a.chain r.latest ≤ x.getD 0
  | .feed f, x => ∃ last, x = some last ∧ ∀ id ∈ f.ids a.table, id ≤ last

end Answers

namespace Setup
open Routine

variable {s : Setup} {a : Answers} {t : Task} {fails : Prop}

/-- An event of a tick that finds the watermark settled. -/
structure Finds (s : Setup) (a : Answers) (t : Task) (e : Event) : Prop where
  stays : a.stays e
  mark : ∀ v, e = ⟨.store (.getInt (s.key t.stop)), .ok v⟩ → a.Settled t v

abbrev finding (s : Setup) (a : Answers) (t : Task) (fails : Prop) (e : Event) : Prop :=
  s.Finds a t e ∧ (e.error?.isSome = true → fails)

theorem brief_stop : Brief (s.finding a t fails) t.idles fails (a.Settled t) 1
    (Checkpoint.get? s.config.namespaceName t.stop) := by
  refine .ask rfl fun x hx => .done ?_
  cases x with
  | ok v => exact hx.1.mark v rfl
  | error e => exact hx.2 rfl

theorem brief_stop_getD : Brief (s.finding a t fails) t.idles fails
    (fun v => ∃ x, a.Settled t x ∧ v = x.getD 0) 1
    (Checkpoint.get s.config.namespaceName t.stop) :=
  Routine.brief_bind (m := 0) brief_stop fun x hx => brief_pure ⟨x, hx, rfl⟩

theorem brief_chain (c : ChainCall) : Brief (s.finding a t fails) t.idles fails (· = a.chain c) 1
    (Routine.chain c) := by
  refine .ask rfl fun x hx => .done ?_
  cases x with
  | ok v => exact hx.1.stays.resolve_left nofun
  | error e => exact hx.2 rfl

theorem brief_records (feeds : t.isFeed = true) (c : RecordCall) :
    Brief (s.finding a t fails) t.idles fails (· = a.table.answer c) 1 (Routine.records c) := by
  refine .ask feeds fun x hx => .done ?_
  cases x with
  | ok v => exact hx.1.stays.resolve_left nofun
  | error e => exact hx.2 rfl

theorem brief_feedPage {f : Feed} {last : UInt64} (all : ∀ id ∈ f.ids a.table, id ≤ last) :
    Brief (s.finding a (.feed f) fails) (Task.feed f).idles fails
      (fun page => page.rows = 0 ∧ page.lastId = none) 1 (s.feedPage f last) := by
  have beyond : (f.ids a.table).filter (last < ·) = [] :=
    List.filter_eq_nil_iff.2 fun id hid => by simpa using UInt64.not_lt.2 (all id hid)
  have none : ∀ {α : Type} {rows : List (UInt64 × α)}, rows.map Prod.fst =
      ((f.ids a.table).filter (last < ·)).take s.pageSize.toNat → rows = [] := by
    intro α rows ids
    rw [beyond, List.take_nil] at ids
    exact List.map_eq_nil_iff.1 ids
  cases f with
  | deposits =>
    refine Routine.brief_bind (m := 0) (brief_records rfl _) fun rows answer => ?_
    obtain rfl : rows = [] := none (answer ▸ deposit_ids a.table last s.pageSize)
    exact brief_pure ⟨rfl, rfl⟩
  | claims =>
    refine Routine.brief_bind (m := 0) (brief_records rfl _) fun rows answer => ?_
    obtain rfl : rows = [] := none (answer ▸ claim_ids a.table last s.pageSize)
    exact brief_pure ⟨rfl, rfl⟩

theorem brief_feedLoop {f : Feed} {last : UInt64} (all : ∀ id ∈ f.ids a.table, id ≤ last) :
    Brief (s.finding a (.feed f) fails) (Task.feed f).idles fails (·.1 = last) 2
      (Routine.ofProgram (Program.loop (.feed s f last 0))) := by
  refine .call ?_
  rw [Program.bind_done]
  refine Routine.brief_bind (m := 1) (brief_feedPage all) ?_
  rintro ⟨rows, lastId, sent⟩ ⟨rfl, rfl⟩
  refine Routine.brief_bind (m := 0) (P := fun _ => True) (brief_measure rfl trivial) fun _ _ => ?_
  have short : (0 : UInt64) < s.pageSize.toUInt64 :=
    (short_iff (n := 0) (Nat.zero_le _)).2 s.pageSize_pos
  simp only [pure_bind, if_pos short]
  exact brief_pure rfl

theorem brief_sweep : Brief (s.finding a t fails) t.idles fails (· = .noChange) 3 (s.sweep t) := by
  cases t with
  | maturity =>
    refine Program.Brief.le (n := 2) ?_ (by decide)
    refine Routine.brief_bind (m := 1) brief_stop_getD ?_
    rintro oldHead ⟨x, settled, rfl⟩
    refine Routine.brief_bind (m := 0) (brief_chain _) ?_
    rintro newHead rfl
    have level : a.chain .head ≤ x.getD 0 := settled
    rw [if_pos level]
    exact brief_pure rfl
  | batch r =>
    refine Program.Brief.le (n := 2) ?_ (by decide)
    refine Routine.brief_bind (m := 1) (brief_chain _) ?_
    rintro latest rfl
    refine Routine.brief_bind (m := 0) brief_stop_getD ?_
    rintro stored ⟨x, settled, rfl⟩
    have level : a.chain r.latest ≤ x.getD 0 := settled
    rw [if_pos level]
    exact brief_pure rfl
  | feed f =>
    refine Routine.brief_bind (m := 2) brief_stop ?_
    rintro mark ⟨last, rfl, all⟩
    refine Routine.brief_bind (m := 0) (brief_feedLoop all) ?_
    rintro ⟨stop, dispatched⟩ rfl
    dsimp only
    rw [if_pos rfl]
    exact brief_pure rfl

theorem brief_tick (fails : Prop) : Program.Brief (s.finding a t fails) t.idles
    (Comes fails fun o => o = .locked ∨ o = .noChange) 8 (s.tick t).run := by
  rw [run_tick_eq]
  refine .ask rfl fun token _ => .ask rfl fun taken found => ?_
  rcases taken with e | _ | _
  · exact .done (found.2 rfl)
  · exact .done (.inl rfl)
  · refine .ask rfl fun _ _ => Program.brief_bind (m := 2) brief_sweep fun outcome h => ?_
    refine .ask rfl fun _ _ => .ask rfl fun _ _ => .done ?_
    cases outcome with
    | ok o => exact .inr h
    | error e => exact h

end Setup
end BridgeNotifier
