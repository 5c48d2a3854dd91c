import BridgeNotifier.Proofs.Execution
import Mathlib.Tactic.SplitIfs
set_option autoImplicit false

namespace BridgeNotifier

def Request.isOffer : Request → Bool
  | .launch .. | .measure (.notice ..) => true
  | _ => false

theorem Request.reply_of_isOffer {r : Request} (h : r.isOffer = true) (x y : r.Reply) : x = y := by
  cases r with
  | launch d n => rfl
  | measure m => rfl
  | _ => cases h

theorem Request.reply_nonempty {r : Request} (h : r.isOffer = true) : Nonempty r.Reply := by
  cases r with
  | launch d n => exact ⟨()⟩
  | measure m => exact ⟨()⟩
  | _ => cases h

def Setup.rewired (s : Setup) (transport : TransportConfig) (present : Bool) : Setup :=
  ⟨{ s.config with transport := transport }, present⟩

def Outcome.uncounted : Outcome → Outcome
  | .advanced start stop _ => .advanced start stop 0
  | o => o

def ScanSummary.uncounted (s : ScanSummary) : ScanSummary :=
  { s with dispatched := 0 }

def FeedPage.uncounted (p : FeedPage) : FeedPage :=
  { p with dispatched := 0 }

/-- The same in what `f` tells of them, and altogether the same if `E` holds. -/
def SameIn {α β : Type} (E : Prop) (f : α → β) (x y : α) : Prop :=
  f x = f y ∧ (E → x = y)

theorem SameIn.symm {α β : Type} {E : Prop} {f : α → β} {x y : α} (h : SameIn E f x y) :
    SameIn E f y x :=
  ⟨h.1.symm, fun e => (h.2 e).symm⟩

/-- Both have failed in the same way, or have results of which `R` holds. -/
def Results {α β : Type} (R : α → β → Prop) : Except Error α → Except Error β → Prop
  | .ok a, .ok b => R a b
  | .error e, .error e' => e = e'
  | _, _ => False

theorem Results.symm {α β : Type} {R : α → β → Prop} {Q : β → α → Prop} {x : Except Error α}
    {y : Except Error β} (h : Results R x y) (hR : ∀ a b, R a b → Q b a) : Results Q y x := by
  cases x with
  | ok a =>
    cases y with
    | ok b => exact hR a b h
    | error e => exact h
  | error e =>
    cases y with
    | ok b => exact h
    | error e' => exact Eq.symm h

theorem results_eq {α : Type} (x : Except Error α) : Results Eq x x := by
  cases x with
  | ok a => exact rfl
  | error e => exact rfl

theorem Results.sameIn {α β : Type} {E : Prop} {f : α → β} {x y : Except Error α}
    (h : Results (SameIn E f) x y) : SameIn E (Except.map f) x y := by
  cases x with
  | ok a =>
    cases y with
    | ok b => exact ⟨congrArg Except.ok h.1, fun e => congrArg Except.ok (h.2 e)⟩
    | error e => exact h.elim
  | error e =>
    cases y with
    | ok b => exact h.elim
    | error e' => exact ⟨congrArg Except.error h, fun _ => congrArg Except.error h⟩

inductive Loop.Alike (E : Prop) : (l l' : Loop) → (l.Result → l'.Result → Prop) → Prop where
  | same (l : Loop) : Alike E l l Eq
  | scan (s : Scan) {d d' : Dispatcher} (offset : UInt64) {summary summary' : ScanSummary}
      (enabled : E → d.enabled = d'.enabled)
      (counts : SameIn E ScanSummary.uncounted summary summary') :
      Alike E (.scan { s with dispatcher := d } offset summary)
        (.scan { s with dispatcher := d' } offset summary')
        (Results (SameIn E ScanSummary.uncounted))
  | feed (s : Setup) {t t' : TransportConfig} {b b' : Bool} (f : Feed) (last : UInt64)
      {n n' : UInt64} (present : E → b = b') (counts : E → n = n') :
      Alike E (.feed (s.rewired t b) f last n) (.feed (s.rewired t' b') f last n')
        (Results (SameIn E Prod.fst))

namespace Program

/-- The programs ask the same apart from offers, and while they are answered in the same way they
come to results of which `R` holds. -/
inductive Alike (E : Prop) {α β : Type} (R : α → β → Prop) : Program α → Program β → Prop where
  | done {a : α} {b : β} (h : R a b) : Alike E R (done a) (done b)
  | ask {r : Request} {k : r.Reply → Program α} {k' : r.Reply → Program β}
      (h : ∀ x, Alike E R (k x) (k' x)) (loud : r.isOffer = false) :
      Alike E R (ask r k) (ask r k')
  | left {r : Request} {k : r.Reply → Program α} {q : Program β} (offer : r.isOffer = true)
      (h : ∀ x, Alike E R (k x) q) : Alike E R (ask r k) q
  | right {p : Program α} {r : Request} {k : r.Reply → Program β} (offer : r.isOffer = true)
      (h : ∀ x, Alike E R p (k x)) : Alike E R p (ask r k)
  | call {l l' : Loop} {Q : l.Result → l'.Result → Prop} {k : l.Result → Program α}
      {k' : l'.Result → Program β} (loops : l.Alike E l' Q)
      (h : ∀ x x', Q x x' → Alike E R (k x) (k' x')) : Alike E R (call l k) (call l' k')
  | openLeft {l : Loop} {k : l.Result → Program α} {q : Program β}
      (h : Alike E R (l.body.bind k) q) : Alike E R (call l k) q
  | openRight {p : Program α} {l : Loop} {k : l.Result → Program β}
      (h : Alike E R p (l.body.bind k)) : Alike E R p (call l k)

variable {E : Prop} {α β γ δ : Type} {R : α → β → Prop} {p : Program α} {q : Program β}

theorem Alike.mono {Q : α → β → Prop} (h : p.Alike E R q) (hR : ∀ a b, R a b → Q a b) :
    p.Alike E Q q := by
  induction h with
  | done h => exact .done (hR _ _ h)
  | ask _ loud ih => exact .ask ih loud
  | left offer _ ih => exact .left offer ih
  | right offer _ ih => exact .right offer ih
  | call loops _ ih => exact .call loops ih
  | openLeft _ ih => exact .openLeft ih
  | openRight _ ih => exact .openRight ih

theorem alike_bind {Q : γ → δ → Prop} {f : α → Program γ} {g : β → Program δ}
    (h : p.Alike E R q) (hf : ∀ a b, R a b → (f a).Alike E Q (g b)) :
    (p.bind f).Alike E Q (q.bind g) := by
  induction h with
  | done h => exact hf _ _ h
  | ask _ loud ih => exact .ask ih loud
  | left offer _ ih => exact .left offer ih
  | right offer _ ih => exact .right offer ih
  | call loops _ ih => exact .call loops ih
  | openLeft _ ih =>
    rw [bind_assoc] at ih
    exact .openLeft ih
  | openRight _ ih =>
    rw [bind_assoc] at ih
    exact .openRight ih

theorem alike_self (p : Program α) : p.Alike E Eq p := by
  induction p with
  | done a => exact .done rfl
  | ask r k ih =>
    cases offer : r.isOffer with
    | false => exact .ask ih offer
    | true =>
      refine .left offer fun x => .right offer fun y => ?_
      rw [Request.reply_of_isOffer offer y x]
      exact ih x
  | call l k ih =>
    refine .call (.same l) ?_
    rintro x _ rfl
    exact ih x

end Program

namespace Loop

variable {E : Prop} {l l' : Loop} {Q : l.Result → l'.Result → Prop}

theorem Alike.symm (h : l.Alike E l' Q) :
    ∃ Q' : l'.Result → l.Result → Prop, l'.Alike E l Q' ∧ ∀ x x', Q' x' x → Q x x' := by
  cases h with
  | same l => exact ⟨_, .same l, fun x x' h => h.symm⟩
  | scan s offset enabled counts =>
    exact ⟨_, .scan s offset (fun e => (enabled e).symm) counts.symm,
      fun x x' h => h.symm fun _ _ => SameIn.symm⟩
  | feed s f last present counts =>
    exact ⟨_, .feed s f last (fun e => (present e).symm) fun e => (counts e).symm,
      fun x x' h => h.symm fun _ _ => SameIn.symm⟩

end Loop

theorem Program.Alike.symm {E : Prop} {α β : Type} {R : α → β → Prop} {Q : β → α → Prop}
    {p : Program α} {q : Program β} (h : p.Alike E R q) (hR : ∀ a b, R a b → Q b a) :
    q.Alike E Q p := by
  induction h with
  | done h => exact .done (hR _ _ h)
  | ask _ loud ih => exact .ask ih loud
  | left offer _ ih => exact .right offer ih
  | right offer _ ih => exact .left offer ih
  | call loops _ ih =>
    obtain ⟨Q', loops', hQ⟩ := loops.symm
    exact .call loops' fun x' x h => ih x x' (hQ x x' h)
  | openLeft _ ih => exact .openRight ih
  | openRight _ ih => exact .openLeft ih

namespace Routine

variable {E : Prop} {α β γ δ : Type} {R : α → β → Prop} {Q : γ → δ → Prop}

abbrev Alike (E : Prop) (R : α → β → Prop) (p : Routine α) (q : Routine β) : Prop :=
  p.run.Alike E (Results R) q.run

theorem alike_pure {a : α} {b : β} (h : R a b) :
    Routine.Alike E R (pure a : Routine α) (pure b : Routine β) :=
  .done h

theorem alike_bind {p : Routine α} {q : Routine β} {f : α → Routine γ} {g : β → Routine δ}
    (h : p.Alike E R q) (hf : ∀ a b, R a b → (f a).Alike E Q (g b)) :
    (p >>= f).Alike E Q (q >>= g) := by
  refine Program.alike_bind (f := ExceptT.bindCont f) (g := ExceptT.bindCont g) h ?_
  rintro (e | a) (e' | b) hab
  · exact .done hab
  · exact hab.elim
  · exact hab.elim
  · exact hf a b hab

theorem alike_lift {p : Program α} {q : Program β} (h : p.Alike E R q) :
    Routine.Alike E R (ExceptT.lift p) (ExceptT.lift q) :=
  Program.alike_bind h fun _ _ hab => .done hab

theorem alike_self (p : Routine α) : p.Alike E Eq p := by
  refine (Program.alike_self p.run).mono ?_
  rintro x _ rfl
  exact results_eq x

theorem alike_bind_self {p : Routine α} {f : α → Routine γ} {g : α → Routine δ}
    (hf : ∀ a, (f a).Alike E Q (g a)) : (p >>= f).Alike E Q (p >>= g) := by
  refine alike_bind (alike_self p) ?_
  rintro a _ rfl
  exact hf a

theorem alike_loop {l l' : Loop} {Q : l.Result → l'.Result → Prop}
    (loops : l.Alike E l' Q) : (Program.loop l).Alike E Q (Program.loop l') :=
  .call loops fun _ _ h => .done h

end Routine

namespace Program

variable {E : Prop} {α β : Type} {R : α → β → Prop} {P : α → Prop} {p : Program α} {q : Program β}

def Offers (P : α → Prop) : Program α → Prop
  | done a => P a
  | ask r k => r.isOffer = true ∧ ∀ x, (k x).Offers P
  | call .. => False

theorem alike_of_offers {Q : β → Prop} (hp : p.Offers P) (hq : q.Offers Q)
    (hR : ∀ a b, P a → Q b → R a b) : p.Alike E R q := by
  induction p with
  | done a =>
    induction q with
    | done b => exact .done (hR a b hp hq)
    | ask r k ih => exact .right hq.1 fun x => ih x (hq.2 x)
    | call l k => exact hq.elim
  | ask r k ih => exact .left hp.1 fun x => ih x (hp.2 x)
  | call l k => exact hp.elim

end Program

namespace Dispatcher

variable {E : Prop} {d d' : Dispatcher}

theorem offers_offer (d : Dispatcher) (n : Notice) :
    (d.offer n).Offers (· = (d.enabled && n.deposit.isAsset)) := by
  unfold Dispatcher.offer
  split_ifs with disabled skipped
  · have off : d.enabled = false := by simpa using disabled
    rw [off]
    rfl
  · have bare : n.deposit.isAsset = false := by simpa using skipped
    rw [bare, Bool.and_false]
    exact ⟨rfl, fun _ => rfl⟩
  · have on : d.enabled = true := by simpa using disabled
    have asset : n.deposit.isAsset = true := by simpa using skipped
    rw [on, asset]
    exact ⟨rfl, fun _ => rfl⟩

theorem alike_offer (enabled : E → d.enabled = d'.enabled) (n : Notice) :
    (d.offer n).Alike E (fun x y => E → x = y) (d'.offer n) := by
  refine Program.alike_of_offers (d.offers_offer n) (d'.offers_offer n) ?_
  rintro _ _ rfl rfl e
  rw [enabled e]

theorem alike_offerAll (enabled : E → d.enabled = d'.enabled) (ns : List Notice) :
    (offerAll d ns).Alike E (fun x y => E → x = y) (offerAll d' ns) := by
  induction ns with
  | nil => exact .done fun _ => rfl
  | cons n ns ih =>
    refine Program.alike_bind (alike_offer enabled n) fun sent sent' hs => ?_
    refine Program.alike_bind ih fun rest rest' hr => ?_
    exact .done fun e => by rw [hs e, hr e]

end Dispatcher

namespace Setup
open Routine

variable {E : Prop} {s : Setup} {t t' : TransportConfig} {b b' : Bool}

theorem alike_page (sc : Scan) {d d' : Dispatcher} (offset : UInt64) {summary summary' : ScanSummary}
    (enabled : E → d.enabled = d'.enabled) (counts : SameIn E ScanSummary.uncounted summary summary') :
    ({ sc with dispatcher := d }.page offset summary).Alike E
      (SameIn E ScanSummary.uncounted) ({ sc with dispatcher := d' }.page offset summary') := by
  refine alike_bind_self fun deposits => alike_bind_self fun _ => ?_
  refine alike_bind (alike_lift (Dispatcher.alike_offerAll enabled _)) fun sent sent' hs => ?_
  obtain ⟨rest, all⟩ := counts
  injection rest with pages matched _
  have next : ∀ rows, SameIn E ScanSummary.uncounted
      ⟨summary.pages + 1, summary.matched + rows, summary.dispatched + sent⟩
      ⟨summary'.pages + 1, summary'.matched + rows, summary'.dispatched + sent'⟩ := by
    intro rows
    refine ⟨?_, fun e => by rw [all e, hs e]⟩
    simp only [ScanSummary.uncounted, pages, matched]
  split_ifs
  · exact alike_pure (next _)
  · exact alike_loop (.scan sc _ enabled (next _))

theorem alike_scan (sc : Scan) {d d' : Dispatcher} (enabled : E → d.enabled = d'.enabled) :
    ({ sc with dispatcher := d }.run).Alike E (SameIn E ScanSummary.uncounted)
      { sc with dispatcher := d' }.run := by
  unfold Scan.run
  split_ifs
  · exact alike_pure ⟨rfl, fun _ => rfl⟩
  · exact alike_loop (.scan sc 0 enabled ⟨rfl, fun _ => rfl⟩)

theorem alike_announceClaims (present : E → b = b') (rows : List (UInt64 × Claim)) :
    ((s.rewired t b).announceClaims rows).Alike E (fun n n' => E → n = n')
      ((s.rewired t' b').announceClaims rows) := by
  induction rows with
  | nil => exact alike_pure fun _ => rfl
  | cons row rows ih =>
    obtain ⟨id, c⟩ := row
    refine alike_bind_self fun found => ?_
    have told : ∀ sent sent' : Bool, (E → sent = sent') → Routine.Alike E (fun n n' => E → n = n')
        (do
          let rest ← (s.rewired t b).announceClaims rows
          return (if sent then 1 else 0) + rest)
        (do
          let rest ← (s.rewired t' b').announceClaims rows
          return (if sent' then 1 else 0) + rest) := by
      intro sent sent' hs
      exact alike_bind ih fun rest rest' hr => alike_pure fun e => by rw [hs e, hr e]
    cases found with
    | none => exact told false false fun _ => rfl
    | some d =>
      have enabled : E → (s.rewired t b).dispatcher.enabled =
          (s.rewired t' b').dispatcher.enabled := present
      exact alike_bind (alike_lift (Dispatcher.alike_offer enabled _)) told

theorem alike_feedPage (present : E → b = b') (f : Feed) (last : UInt64) :
    ((s.rewired t b).feedPage f last).Alike E (SameIn E FeedPage.uncounted)
      ((s.rewired t' b').feedPage f last) := by
  cases f with
  | deposits =>
    refine alike_bind_self fun rows => ?_
    refine alike_bind (alike_lift (Dispatcher.alike_offerAll present _)) fun sent sent' hs => ?_
    exact alike_pure ⟨rfl, fun e => by rw [hs e]⟩
  | claims =>
    refine alike_bind_self fun rows => ?_
    refine alike_bind (alike_announceClaims present rows) fun sent sent' hs => ?_
    exact alike_pure ⟨rfl, fun e => by rw [hs e]⟩

theorem alike_feedRound (present : E → b = b') (f : Feed) (last : UInt64) {n n' : UInt64}
    (counts : E → n = n') :
    ((s.rewired t b).feedRound f last n).Alike E (SameIn E Prod.fst)
      ((s.rewired t' b').feedRound f last n') := by
  refine alike_bind (alike_feedPage present f last) ?_
  rintro ⟨rows, lastId, sent⟩ ⟨rows', lastId', sent'⟩ ⟨rest, all⟩
  injection rest with hrows hid _
  subst hrows hid
  refine alike_bind_self fun _ => ?_
  have sum : E → n + sent = n' + sent' := by
    intro e
    injection all e with _ _ same
    rw [counts e, same]
  have ends : ∀ last', Routine.Alike E (SameIn E Prod.fst)
      (if rows < s.pageSize.toUInt64 then pure (last', n + sent)
        else Routine.ofProgram (Program.loop (.feed (s.rewired t b) f last' (n + sent))))
      (if rows < s.pageSize.toUInt64 then pure (last', n' + sent')
        else Routine.ofProgram (Program.loop (.feed (s.rewired t' b') f last' (n' + sent')))) := by
    intro last'
    split_ifs
    · exact alike_pure ⟨rfl, fun e => by rw [sum e]⟩
    · exact alike_loop (.feed s f last' present sum)
  cases lastId with
  | none => exact ends last
  | some id => exact alike_bind_self fun _ => ends id

end Setup

theorem Loop.Alike.body {E : Prop} {l l' : Loop} {Q : l.Result → l'.Result → Prop}
    (h : l.Alike E l' Q) : l.body.Alike E Q l'.body := by
  cases h with
  | same l => exact Program.alike_self l.body
  | scan s offset enabled counts => exact Setup.alike_page s offset enabled counts
  | feed s f last present counts => exact Setup.alike_feedRound present f last counts

namespace Setup
open Routine

variable {E : Prop} {s : Setup} {t t' : TransportConfig} {b b' : Bool}

theorem alike_sweepMaturity (present : E → b = b') :
    (s.rewired t b).sweepMaturity.Alike E (SameIn E Outcome.uncounted)
      (s.rewired t' b').sweepMaturity := by
  refine alike_bind_self fun oldHead => alike_bind_self fun newHead => ?_
  split_ifs
  · exact alike_pure ⟨rfl, fun _ => rfl⟩
  refine alike_bind_self fun depth => alike_bind_self fun lastScanned => ?_
  have scanned : ∀ n n' : UInt64, (E → n = n') → (s.recordHead oldHead newHead n).Alike E
      (SameIn E Outcome.uncounted) (s.recordHead oldHead newHead n') := by
    intro n n' hn
    refine alike_bind_self fun _ => alike_bind_self fun _ => alike_pure ⟨rfl, fun e => ?_⟩
    rw [hn e]
  cases matured? oldHead newHead depth lastScanned with
  | none => exact scanned 0 0 fun _ => rfl
  | some range =>
    refine alike_bind (alike_scan (s.scan .maturity s.config.maturity.network range
      .pendingAutoClaim) present) fun summary summary' hs => ?_
    refine alike_bind_self fun _ => scanned _ _ fun e => ?_
    rw [hs.2 e]

theorem alike_sweepBatch (present : E → b = b') (r : Role) :
    ((s.rewired t b).sweepBatch r).Alike E (SameIn E Outcome.uncounted)
      ((s.rewired t' b').sweepBatch r) := by
  refine alike_bind_self fun latest => alike_bind_self fun stored => ?_
  split_ifs
  · exact alike_pure ⟨rfl, fun _ => rfl⟩
  refine alike_bind_self fun newCeiling => alike_bind_self fun oldCeiling => ?_
  have recorded : ∀ n n' : UInt64, (E → n = n') → (s.recordBatch r stored latest n).Alike E
      (SameIn E Outcome.uncounted) (s.recordBatch r stored latest n') := by
    intro n n' hn
    refine alike_bind_self fun _ => alike_bind_self fun _ => alike_bind_self fun _ => ?_
    exact alike_pure ⟨rfl, fun e => by rw [hn e]⟩
  have settled : ∀ n n' : UInt64, (E → n = n') →
      (s.settleBatch r newCeiling stored latest n).Alike E (SameIn E Outcome.uncounted)
        (s.settleBatch r newCeiling stored latest n') := by
    intro n n' hn
    refine alike_bind_self fun moved => ?_
    cases moved with
    | false => exact recorded n n' hn
    | true => exact alike_bind_self fun _ => recorded n n' hn
  split_ifs
  · refine alike_bind (alike_scan (s.scan (.batch r) (s.batchConfig r).network
      ⟨oldCeiling + 1, newCeiling⟩ r.status) present) fun summary summary' hs => ?_
    exact settled _ _ fun e => by rw [hs.2 e]
  · exact settled 0 0 fun _ => rfl

theorem alike_sweepFeed (present : E → b = b') (f : Feed) :
    ((s.rewired t b).sweepFeed f).Alike E (SameIn E Outcome.uncounted)
      ((s.rewired t' b').sweepFeed f) := by
  refine alike_bind_self fun mark => ?_
  cases mark with
  | none =>
    refine alike_bind_self fun latest => alike_bind_self fun _ => ?_
    exact alike_pure ⟨rfl, fun _ => rfl⟩
  | some start =>
    refine alike_bind (alike_loop (.feed s f start present fun _ => rfl)) ?_
    rintro ⟨last, n⟩ ⟨_, n'⟩ ⟨rfl, counts⟩
    have same : E → n = n' := fun e => congrArg Prod.snd (counts e)
    dsimp only
    split_ifs
    · exact alike_pure ⟨rfl, fun _ => rfl⟩
    · exact alike_bind_self fun _ => alike_pure ⟨rfl, fun e => by rw [same e]⟩

theorem alike_sweep (present : E → b = b') (task : Task) :
    ((s.rewired t b).sweep task).Alike E (SameIn E Outcome.uncounted)
      ((s.rewired t' b').sweep task) := by
  cases task with
  | maturity => exact alike_sweepMaturity present
  | batch r => exact alike_sweepBatch present r
  | feed f => exact alike_sweepFeed present f

theorem alike_tick (present : E → b = b') (task : Task) :
    ((s.rewired t b).tick task).Alike E (SameIn E Outcome.uncounted)
      ((s.rewired t' b').tick task) := by
  refine alike_bind_self fun lease => ?_
  cases lease with
  | none => exact alike_pure ⟨rfl, fun _ => rfl⟩
  | some l =>
    refine alike_bind (alike_lift (alike_sweep present task)) fun o o' ho => ?_
    exact alike_bind_self fun _ => Program.Alike.done ho

end Setup

namespace Program

variable {E : Prop} {α β σ τ : Type} {R : α → β → Prop} {p p' : Program α} {q q' : Program β}
variable {S : Surroundings σ} {w v : σ} {T : Surroundings τ} {x y : τ}

theorem Alike.unfold {l : Loop} {k : l.Result → Program α} (h : (Program.call l k).Alike E R q) :
    (l.body.bind k).Alike E R q := by
  generalize hp : Program.call l k = p at h
  induction h with
  | done _ => cases hp
  | ask _ _ _ => cases hp
  | left _ _ _ => cases hp
  | right offer _ ih => exact .right offer fun x => ih x hp
  | call loops hk _ =>
    cases hp
    exact .openRight (alike_bind loops.body hk)
  | openLeft h _ =>
    cases hp
    exact h
  | openRight _ ih => exact .openRight (ih hp)

theorem Alike.offered {r : Request} {k : r.Reply → Program α} (h : (Program.ask r k).Alike E R q)
    (offer : r.isOffer = true) (x : r.Reply) : (k x).Alike E R q := by
  generalize hp : Program.ask r k = p at h
  induction h with
  | done _ => cases hp
  | ask _ loud _ =>
    cases hp
    rw [offer] at loud
    cases loud
  | left _ h _ =>
    cases hp
    exact h x
  | right offer' _ ih => exact .right offer' fun y => ih y hp
  | call _ _ _ => cases hp
  | openLeft _ _ => cases hp
  | openRight _ ih => exact .openRight (ih hp)

theorem Alike.skip {es : List Event} (h : p.Alike E R q) (run : p.Leads S w es p' v)
    (offers : ∀ e ∈ es, e.request.isOffer = true) : p'.Alike E R q := by
  induction run with
  | refl p w => exact h
  | ask _ _ ih =>
    exact ih (h.offered (offers _ List.mem_cons_self) _) fun e he => offers e (by simp [he])
  | call _ ih => exact ih h.unfold offers

theorem Alike.flip (h : p.Alike E R q) : q.Alike E (fun b a => R a b) p :=
  h.symm fun _ _ h => h

theorem Alike.skip_right {es : List Event} (h : p.Alike E R q) (run : q.Leads S w es q' v)
    (offers : ∀ e ∈ es, e.request.isOffer = true) : p.Alike E R q' :=
  (h.flip.skip run offers).flip

theorem Alike.ready {r : Request} {k : r.Reply → Program α} (h : (Program.ask r k).Alike E R q)
    (loud : r.isOffer = false) (free : ∀ e : Event, e.request.isOffer = true → S w e w) :
    ∃ es k', (∀ e ∈ es, e.request.isOffer = true) ∧ q.Leads S w es (Program.ask r k') w ∧
      ∀ x, (k x).Alike E R (k' x) := by
  generalize hp : Program.ask r k = p at h
  induction h with
  | done _ => cases hp
  | @ask r k k' h _ _ =>
    cases hp
    exact ⟨[], k', by simp, .refl _ w, h⟩
  | left offer _ _ =>
    cases hp
    rw [offer] at loud
    cases loud
  | @right p r' k' offer _ ih =>
    obtain ⟨x⟩ : Nonempty r'.Reply := Request.reply_nonempty offer
    obtain ⟨es, k'', offers, run, alike⟩ := ih x hp
    refine ⟨⟨r', x⟩ :: es, k'', ?_, .ask (free ⟨r', x⟩ offer) run, alike⟩
    simpa [offer] using offers
  | call _ _ _ => cases hp
  | openLeft _ _ => cases hp
  | openRight _ ih =>
    obtain ⟨es, k'', offers, run, alike⟩ := ih hp
    exact ⟨es, k'', offers, .call run, alike⟩

theorem Alike.ends {a : α} (h : (Program.done a).Alike E R q)
    (free : ∀ e : Event, e.request.isOffer = true → S w e w) :
    ∃ es b, (∀ e ∈ es, e.request.isOffer = true) ∧ q.Leads S w es (Program.done b) w := by
  generalize hp : Program.done a = p at h
  induction h with
  | @done a b _ => exact ⟨[], b, by simp, .refl _ w⟩
  | ask _ _ _ => cases hp
  | left _ _ _ => cases hp
  | @right p r' k' offer _ ih =>
    obtain ⟨x⟩ : Nonempty r'.Reply := Request.reply_nonempty offer
    obtain ⟨es, b, offers, run⟩ := ih x hp
    refine ⟨⟨r', x⟩ :: es, b, ?_, .ask (free ⟨r', x⟩ offer) run⟩
    simpa [offer] using offers
  | call _ _ _ => cases hp
  | openLeft _ _ => cases hp
  | openRight _ ih =>
    obtain ⟨es, b, offers, run⟩ := ih hp
    exact ⟨es, b, offers, .call run⟩

theorem Alike.result {a : α} {b : β} (h : (Program.done a).Alike E R (Program.done b)) : R a b := by
  cases h with
  | done h => exact h

theorem Alike.same_of_asks {r r' : Request} {k : r.Reply → Program α} {k' : r'.Reply → Program β}
    (h : (Program.ask r k).Alike E R (Program.ask r' k')) (loud : r.isOffer = false)
    (loud' : r'.isOffer = false) : r = r' ∧ ∀ x x', HEq x x' → (k x).Alike E R (k' x') := by
  cases h with
  | ask h _ =>
    refine ⟨rfl, ?_⟩
    rintro x _ ⟨⟩
    exact h x
  | left offer _ =>
    rw [offer] at loud
    cases loud
  | right offer _ =>
    rw [offer] at loud'
    cases loud'

theorem Leads.anywhere (run : p.Leads S w [] p' v) (T : Surroundings τ) (x : τ) :
    p.Leads T x [] p' x := by
  generalize hes : ([] : List Event) = es at run
  induction run with
  | refl p w => exact .refl p x
  | ask _ _ _ => cases hes
  | call _ ih => exact .call (ih hes)

theorem exists_body_eq_ask (l : Loop) : ∃ r k, l.body = Program.ask r k := by
  cases l with
  | scan s offset summary => exact ⟨_, _, rfl⟩
  | feed s f last dispatched => cases f <;> exact ⟨_, _, rfl⟩
  | renewal l deadline => exact ⟨_, _, rfl⟩
  | periodic s t interval deadline => exact ⟨_, _, rfl⟩

theorem Leads.eq_done {a : α} (run : p.Leads S w [] (Program.done a) v) : p = Program.done a := by
  generalize hes : ([] : List Event) = es at run
  generalize hq : Program.done a = q at run
  cases run with
  | refl p w => rfl
  | ask _ _ => cases hes
  | @call l k _ _ _ _ rest =>
    subst hes hq
    obtain ⟨r, k', hl⟩ := exists_body_eq_ask l
    rw [hl] at rest
    cases rest

theorem Leads.asks {r : Request} {z : r.Reply} (run : p.Leads S w [⟨r, z⟩] p' v) :
    ∃ k, p.Leads S w [] (Program.ask r k) w ∧ S w ⟨r, z⟩ v ∧ (k z).Leads S v [] p' v := by
  generalize hes : [(⟨r, z⟩ : Event)] = es at run
  induction run with
  | refl p w => cases hes
  | ask h rest _ =>
    cases hes
    obtain rfl := rest.eq_of_nil
    exact ⟨_, .refl _ _, h, rest⟩
  | call _ ih =>
    obtain ⟨k, before, h, rest⟩ := ih hes
    exact ⟨k, .call before, h, rest⟩

/-- Programs alike make the same next request, and are alike after the same reply. -/
theorem Alike.step {e e' : Event} (h : p.Alike E R q) (run : p.Leads S w [e] p' v)
    (run' : q.Leads T x [e'] q' y) (loud : e.request.isOffer = false)
    (loud' : e'.request.isOffer = false) :
    e.request = e'.request ∧ (e = e' → p'.Alike E R q') := by
  obtain ⟨r, z⟩ := e
  obtain ⟨r', z'⟩ := e'
  obtain ⟨k, before, -, rest⟩ := run.asks
  obtain ⟨k', before', -, rest'⟩ := run'.asks
  have asks := (h.skip before (by simp)).skip_right before' (by simp)
  obtain ⟨same, alike⟩ := asks.same_of_asks loud loud'
  refine ⟨same, fun he => ?_⟩
  injection he with _ reply
  exact ((alike z z' reply).skip rest (by simp)).skip_right rest' (by simp)

end Program
end BridgeNotifier
