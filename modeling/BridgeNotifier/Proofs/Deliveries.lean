import BridgeNotifier.Proofs.Paging
import BridgeNotifier.Proofs.StillWorld
set_option autoImplicit false

namespace BridgeNotifier
open Surroundings

namespace Event

def measurement? : Event → Option Measurement
  | ⟨.measure m, _⟩ => some m
  | _ => none

def message? : Event → Option Envelope
  | ⟨.send e, _⟩ => some e
  | _ => none

def beginsSend : Event → Bool
  | ⟨.chainIds, _⟩ => true
  | _ => false

end Event

def measured (es : List Event) : List Measurement :=
  es.filterMap Event.measurement?

def messages (es : List Event) : List Envelope :=
  es.filterMap Event.message?

/-- The program was to send a message, and it broke down before it could. -/
def Thread.brokeDown (t : Thread Unit) : Bool :=
  t.program.result?.isSome && t.events.any Event.beginsSend && (messages t.events).isEmpty

/-- How a program in the background sees a still world, if `known` holds of the numbers it finds. -/
def Stillness.beside (a : Stillness) (known : String → Option UInt64 → Prop) : Surroundings Unit :=
  anyhow.only fun e => a.holds e ∧ ∀ key v, e = ⟨.store (.getInt key), .ok v⟩ → known key v

def Request.isIdle : Request → Bool
  | .store (.getInt _) => true
  | .store _ => false
  | _ => true

theorem quiet_idle {a : Stillness} {now : Nat} {m n : Memory} {e : Event}
    (idle : e.request.isIdle = true) (h : quiet a now m e n) : n = m := by
  obtain ⟨r, x⟩ := e
  cases r with
  | store c =>
    cases c with
    | getInt key =>
      obtain ⟨v, rfl, hv⟩ := quiet_store h
      exact congrArg Prod.snd hv
    | _ => cases idle
  | _ => exact h.2

namespace Program

variable {σ α : Type} {S : Surroundings σ} {s t : σ} {es : List Event}

theorem Leads.of_request {r : Request} {x : r.Reply}
    (run : (request r).Leads S s es (.done x) t) : es = [⟨r, x⟩] ∧ S s ⟨r, x⟩ t := by
  cases run with
  | ask h rest =>
    cases rest
    exact ⟨rfl, h⟩

theorem Leads.of_done {x y : α} (run : (done x).Leads S s es (.done y) t) :
    es = [] ∧ y = x ∧ t = s := by
  cases run
  exact ⟨rfl, rfl, rfl⟩

end Program

namespace Notice

variable {chains : ChainIds} {rollupId minutes minutes' : UInt32}

theorem update_eq (n : Notice) : n.update chains rollupId minutes' =
    { n.update chains rollupId minutes with
      estimateTime := (n.update chains rollupId minutes').estimateTime } := by
  obtain ⟨deposit, status, claim⟩ := n
  cases status <;> rfl

theorem update_status (n : Notice) : (n.update chains rollupId minutes).status = n.status.code := by
  obtain ⟨deposit, status, claim⟩ := n
  cases status <;> rfl

end Notice

variable {a : Stillness} {known : String → Option UInt64 → Prop} {es : List Event}

theorem silent_of_isRenewal {e : Event} (h : e.request.isRenewal = true) :
    e.message? = none ∧ e.measurement? = none := by
  obtain ⟨r, x⟩ := e
  cases r with
  | measure _ | send _ => cases h
  | _ => exact ⟨rfl, rfl⟩

theorem Lease.idle_keep {l : Lease} {q : Program Unit}
    (run : l.keep.Leads (a.beside known) () es q ()) :
    ∀ e ∈ es, e.request.isRenewal = true ∧ e.request.isIdle = true := by
  cases run with
  | refl => simp
  | ask timed rest =>
    cases rest with
    | refl => simp [Request.isRenewal, Request.isIdle]
    | call rest =>
      cases rest with
      | refl => simp [Request.isRenewal, Request.isIdle]
      | @ask _ _ due _ _ _ _ _ waited rest =>
        obtain rfl : due = false := waited.1.1.2.2
        cases rest
        simp [Request.isRenewal, Request.isIdle]

def Estimator.averageAfter (e : Estimator) : Except Error (Option UInt64) → UInt64
  | .ok found => (found.filter fun v => 0 < v).getD e.window.defaultSecs
  | .error _ => e.window.defaultSecs

namespace Dispatcher

variable {d : Dispatcher} {n : Notice}

/-- How an update is made: from a look at the chain ids, for a deposit that was just made from the
clock as well, and if the deposit leaves a rollup from the average. -/
inductive Updates (d : Dispatcher) (n : Notice) : Option TransferUpdate → List Event → Prop where
  | plain (other : n.status ≠ .created) (chains : ChainIds) :
      Updates d n (some (n.update chains d.rollupId 0)) [⟨.chainIds, chains⟩]
  | flat (created : n.status = .created) (main : n.deposit.fromMain = true) (chains : ChainIds)
      (now : UInt64) : Updates d n
        (some (n.update chains d.rollupId (d.estimate.minutesFor n.deposit.network)))
        [⟨.chainIds, chains⟩, ⟨.millis, now⟩]
  | estimated (created : n.status = .created) (rollup : n.deposit.fromMain = false)
      (chains : ChainIds) (now : UInt64) (answer : Except Error (Option UInt64)) : Updates d n
        ((d.estimate.minutes n.deposit (d.commitEstimator.averageAfter answer) now).map
          (n.update chains d.rollupId))
        [⟨.chainIds, chains⟩, ⟨.millis, now⟩,
          ⟨.store (.getInt d.commitEstimator.averageKey), answer⟩]

def handing (d : Dispatcher) (n : Notice) (u : TransferUpdate) (id : String) (now : UInt64)
    (result : Except Error Unit) : List Event :=
  [⟨.requestId, id⟩, ⟨.millis, now⟩, ⟨.send (.ofUpdate d.bizCode u id now), result⟩,
    ⟨.measure (.notice n.status (if result.isOk then .sent else .failed)), ()⟩]

/-- How a delivery comes to its end. It may break down over the update. -/
inductive Delivery (d : Dispatcher) (n : Notice) : List Event → Prop where
  | broken {es : List Event} (update : d.Updates n none es) : Delivery d n es
  | handed {es : List Event} {u : TransferUpdate} (update : d.Updates n (some u) es) (id : String)
      (now : UInt64) (result : Except Error Unit) : Delivery d n (es ++ d.handing n u id now result)

section Steps
variable {σ : Type} {S : Surroundings σ} {w v : σ}

theorem average_of_leads {e : Estimator} {average : UInt64}
    (run : e.averageOrDefault.Leads S w es (.done average) v) :
    ∃ answer, es = [⟨.store (.getInt e.averageKey), answer⟩] ∧ average = e.averageAfter answer := by
  cases run with
  | @ask _ _ answer _ _ _ _ _ read rest =>
    refine ⟨answer, ?_⟩
    cases answer with
    | error err =>
      obtain ⟨rfl, rfl, -⟩ := rest.of_done
      exact ⟨rfl, rfl⟩
    | ok found =>
      rw [Estimator.averageAfter]
      cases filtered : found.filter fun v => 0 < v with
      | none =>
        simp only [Program.bind, ExceptT.bindCont, filtered] at rest
        obtain ⟨rfl, rfl, -⟩ := rest.of_done
        exact ⟨rfl, rfl⟩
      | some v =>
        simp only [Program.bind, ExceptT.bindCont, filtered] at rest
        obtain ⟨rfl, rfl, -⟩ := rest.of_done
        exact ⟨rfl, rfl⟩

theorem updates_of_leads {o : Option TransferUpdate}
    (run : (d.update n).Leads S w es (.done o) v) : d.Updates n o es := by
  obtain ⟨es₁, chains, w₁, es₂, first, last, rfl⟩ := Program.Leads.of_bind run
  obtain ⟨rfl, -⟩ := first.of_request
  split_ifs at last with wants
  · have created : n.status = .created := eq_of_beq wants
    obtain ⟨es₃, now, w₂, es₄, clock, rest, rfl⟩ := Program.Leads.of_bind last
    obtain ⟨rfl, -⟩ := clock.of_request
    obtain ⟨es₅, minutes, w₃, es₆, estimate, done, rfl⟩ := Program.Leads.of_bind rest
    obtain ⟨rfl, rfl, -⟩ := done.of_done
    unfold Dispatcher.minutes at estimate
    split_ifs at estimate with main
    · obtain ⟨rfl, rfl, -⟩ := estimate.of_done
      exact .flat created main chains now
    · obtain ⟨es₇, average, w₄, es₈, read, ready, rfl⟩ := Program.Leads.of_bind estimate
      obtain ⟨answer, rfl, rfl⟩ := average_of_leads read
      obtain ⟨rfl, rfl, -⟩ := ready.of_done
      exact .estimated created (Bool.eq_false_iff.2 main) chains now answer
  · have other : n.status ≠ .created := fun created => wants (beq_iff_eq.2 created)
    obtain ⟨rfl, rfl, -⟩ := last.of_done
    exact .plain other chains

theorem delivery_of_leads (run : (d.deliver n).Leads S w es (.done ()) v) : d.Delivery n es := by
  obtain ⟨es₁, o, w₁, es₂, first, run₂, rfl⟩ := Program.Leads.of_bind run
  have update := updates_of_leads first
  cases o with
  | none =>
    obtain ⟨rfl, -, rfl⟩ := run₂.of_done
    rw [List.append_nil]
    exact .broken update
  | some u =>
    obtain ⟨es₃, id, w₂, es₄, named, run₃, rfl⟩ := Program.Leads.of_bind run₂
    obtain ⟨rfl, -⟩ := named.of_request
    obtain ⟨es₅, now, w₃, es₆, clock, run₄, rfl⟩ := Program.Leads.of_bind run₃
    obtain ⟨rfl, -⟩ := clock.of_request
    obtain ⟨es₇, result, w₄, es₈, sent, run₅, rfl⟩ := Program.Leads.of_bind run₄
    obtain ⟨rfl, -⟩ := sent.of_request
    obtain ⟨rfl, -⟩ := run₅.of_request
    exact .handed update id now result

end Steps

theorem Updates.silent {o : Option TransferUpdate} (h : d.Updates n o es) :
    messages es = [] ∧ measured es = [] ∧ es.any Event.beginsSend = true := by
  cases h <;> exact ⟨rfl, rfl, rfl⟩

theorem Updates.eq_update {u : TransferUpdate} (h : d.Updates n (some u) es) :
    ∃ chains minutes, u = n.update chains d.rollupId minutes := by
  generalize told : some u = o at h
  cases h with
  | plain other chains => exact ⟨chains, 0, Option.some.inj told⟩
  | flat created main chains now => exact ⟨chains, _, Option.some.inj told⟩
  | estimated created rollup chains now answer =>
    obtain ⟨minutes, -, rfl⟩ := Option.map_eq_some_iff.1 told.symm
    exact ⟨chains, minutes, rfl⟩

def updateWith (d : Dispatcher) (a : Stillness) (n : Notice) (found : Option UInt64) :
    Option TransferUpdate :=
  if n.wantsEstimate then
    (d.estimate.minutes n.deposit (d.commitEstimator.averageAfter (.ok found)) a.millis).map
      (n.update a.chainIds d.rollupId)
  else some (n.update a.chainIds d.rollupId 0)

theorem exists_of_updateWith {found : Option UInt64} {u : TransferUpdate}
    (h : d.updateWith a n found = some u) : ∃ minutes, u = n.update a.chainIds d.rollupId minutes := by
  rw [updateWith] at h
  split_ifs at h
  · obtain ⟨minutes, -, rfl⟩ := Option.map_eq_some_iff.1 h
    exact ⟨minutes, rfl⟩
  · exact ⟨0, (Option.some.inj h).symm⟩

theorem updateWith_of_ne (h : n.status ≠ .created) (found : Option UInt64) :
    d.updateWith a n found = some (n.update a.chainIds d.rollupId 0) :=
  if_neg (by simp [Notice.wantsEstimate, h])

theorem updateWith_of_created (h : n.status = .created) (found : Option UInt64) :
    d.updateWith a n found =
      (d.estimate.minutes n.deposit (d.commitEstimator.averageAfter (.ok found)) a.millis).map
        (n.update a.chainIds d.rollupId) :=
  if_pos (beq_iff_eq.2 h)

theorem Updates.eq_updateWith {o : Option TransferUpdate} (h : d.Updates n o es)
    (seen : ∀ e ∈ es, ∃ u v, a.beside known u e v)
    (sure : ∃ v, known d.commitEstimator.averageKey v) :
    ∃ found, known d.commitEstimator.averageKey found ∧ o = d.updateWith a n found := by
  have looked : ∀ chains, (⟨.chainIds, chains⟩ : Event) ∈ es → chains = a.chainIds := by
    intro chains he
    obtain ⟨u, v, happened⟩ := seen _ he
    exact happened.1.1.2.2
  have timed : ∀ now, (⟨.millis, now⟩ : Event) ∈ es → now = a.millis := by
    intro now he
    obtain ⟨u, v, happened⟩ := seen _ he
    exact happened.1.1.2.2
  obtain ⟨v, hv⟩ := sure
  cases h with
  | plain other chains =>
    obtain rfl := looked chains (by simp)
    exact ⟨v, hv, (updateWith_of_ne other v).symm⟩
  | flat created main chains now =>
    obtain rfl := looked chains (by simp)
    exact ⟨v, hv, by rw [updateWith_of_created created, EstimateConfig.minutes, if_pos main]; rfl⟩
  | estimated created rollup chains now answer =>
    obtain rfl := looked chains (by simp)
    obtain rfl := timed now (by simp)
    obtain ⟨u, v, happened⟩ :=
      seen ⟨.store (.getInt d.commitEstimator.averageKey), answer⟩ (by simp)
    cases answer with
    | error err => cases happened.1.1.2.1
    | ok found =>
      exact ⟨found, happened.1.2 _ _ rfl, (updateWith_of_created created found).symm⟩

end Dispatcher

/-- What comes of a notice: a message that tells of it, or none if its estimate overflows with an
average that is known. -/
def Dispatcher.Tells (d : Dispatcher) (a : Stillness) (known : String → Option UInt64 → Prop)
    (n : Notice) (told : Option Envelope) : Prop :=
  ∃ found id, known d.commitEstimator.averageKey found ∧
    told = (d.updateWith a n found).map fun u => .ofUpdate d.bizCode u id a.millis

theorem Dispatcher.Delivery.tells {d : Dispatcher} {n : Notice} (h : d.Delivery n es)
    (seen : ∀ e ∈ es, ∃ u v, a.beside known u e v)
    (sure : ∃ v, known d.commitEstimator.averageKey v) :
    ∃ told, d.Tells a known n told ∧ messages es = told.toList ∧
      measured es = told.toList.map (fun _ => .notice n.status .sent) ∧
      es.any Event.beginsSend = true := by
  cases h with
  | broken update =>
    obtain ⟨found, hfound, overflows⟩ := update.eq_updateWith seen sure
    obtain ⟨unsent, uncounted, begins⟩ := update.silent
    exact ⟨none, ⟨found, "", hfound, by rw [← overflows]; rfl⟩, unsent, uncounted, begins⟩
  | @handed es u update id now result =>
    obtain ⟨found, hfound, about⟩ :=
      update.eq_updateWith (fun e he => seen e (List.mem_append_left _ he)) sure
    obtain ⟨unsent, uncounted, begins⟩ := update.silent
    obtain ⟨_, _, timed⟩ := seen ⟨.millis, now⟩ (by simp [handing])
    obtain ⟨_, _, arrived⟩ := seen ⟨.send (.ofUpdate d.bizCode u id now), result⟩ (by simp [handing])
    obtain rfl : now = a.millis := timed.1.1.2.2
    obtain rfl : result = .ok () := arrived.1.1.2.2
    refine ⟨_, ⟨found, id, hfound, by rw [← about]⟩, ?_, ?_, ?_⟩
    · rw [messages, List.filterMap_append]
      exact congrArg (· ++ _) unsent
    · rw [measured, List.filterMap_append]
      exact congrArg (· ++ _) uncounted
    · rw [List.any_append, begins, Bool.true_or]

structure Event.Aside (e : Event) : Prop where
  idle : e.request.isIdle = true
  reports : ∀ x ∈ e.measurement?, ∃ status result, x = .notice status result

theorem aside_of_asks {d : Dispatcher} {e : Event} (h : d.asks e.request) : e.Aside := by
  obtain ⟨r, x⟩ := e
  cases r with
  | store c =>
    obtain rfl : c = .getInt d.commitEstimator.averageKey := h
    exact ⟨rfl, fun _ hx => nomatch hx⟩
  | measure m =>
    cases m with
    | notice status result => exact ⟨rfl, fun _ hx => ⟨status, result, (Option.some.inj hx).symm⟩⟩
    | _ => exact h.elim
  | chainIds | millis | requestId | send _ => exact ⟨rfl, fun _ hx => nomatch hx⟩
  | _ => exact h.elim

theorem aside_of_isRenewal {e : Event} (h : e.request.isRenewal = true)
    (idle : e.request.isIdle = true) : e.Aside :=
  ⟨idle, fun x hx => by rw [(silent_of_isRenewal h).2] at hx; cases hx⟩

theorem aside_of_starts {e : Event} {p q : Program Unit} (hp : p ∈ e.starts)
    (run : p.Leads (a.beside known) () es q ()) : ∀ e ∈ es, e.Aside := by
  obtain ⟨r, x⟩ := e
  cases r with
  | launch d n =>
    obtain rfl := List.mem_singleton.1 hp
    have asked := ((d.within_deliver n).rest (fun _ h => h.elim) run).2
    exact fun e he => aside_of_asks (asked e he)
  | hold l =>
    obtain rfl := List.mem_singleton.1 hp
    exact fun e he => aside_of_isRenewal (l.idle_keep run e he).1 (l.idle_keep run e he).2
  | _ => cases hp

/-- A program in the background, as far as it has come. -/
def Stillness.Underway (a : Stillness) (known : String → Option UInt64 → Prop) (p : Program Unit)
    (t : Thread Unit) : Prop :=
  p.Leads (a.beside known) () t.events t.program ()

def toldOf (ns : List Notice) (told : List (Option Envelope)) : List Measurement :=
  (ns.zip told).flatMap fun x => x.2.toList.map fun _ => .notice x.1.status .sent

/-- What runs in the background, as it was started: the sends of notices, among renewals of leases. -/
inductive Background (S : Surroundings Unit) (d : Dispatcher) :
    List Notice → List (Thread Unit) → Prop where
  | none : Background S d [] []
  | send {n : Notice} {t : Thread Unit} {ns : List Notice} {ts : List (Thread Unit)}
      (ran : (d.deliver n).Leads S () t.events t.program ()) (others : Background S d ns ts) :
      Background S d (n :: ns) (t :: ts)
  | renewal {t : Thread Unit} {ns : List Notice} {ts : List (Thread Unit)}
      (renews : ∀ e ∈ t.events, e.request.isRenewal = true) (others : Background S d ns ts) :
      Background S d ns (t :: ts)

theorem background_of_starts {S : Surroundings Unit} {d : Dispatcher} {started : List Event}
    {jobs : List (Thread Unit)}
    (own : ∀ e ∈ started, ∀ d' n, e.request = .launch d' n → d' = d)
    (ran : List.Forall₂ (fun p t => p.Leads S () t.events t.program ())
      (started.flatMap Event.starts) jobs) : Background S d (handed started) jobs := by
  induction started generalizing jobs with
  | nil =>
    cases ran
    exact .none
  | cons e started ih =>
    have own' := fun e he => own e (List.mem_cons_of_mem _ he)
    obtain ⟨r, x⟩ := e
    cases r with
    | launch d' n =>
      obtain rfl := own _ List.mem_cons_self d' n rfl
      cases ran with
      | cons job rest => exact .send job (ih own' rest)
    | hold l =>
      cases ran with
      | cons job rest =>
        have renews := (l.within_keep.rest (fun _ => Loop.within_of_isRenewal) job).2
        exact .renewal renews (ih own' rest)
    | _ => exact ih own' ran

/-- For each notice that was handed over one message is sent and one measurement taken, unless the
send broke down. -/
theorem sent_in_background {d : Dispatcher} {ns : List Notice} {jobs : List (Thread Unit)}
    (sure : ∃ v, known d.commitEstimator.averageKey v)
    (background : Background (a.beside known) d ns jobs)
    (ended : ∀ t ∈ jobs, t.program = .done ()) :
    ∃ told, List.Forall₂ (d.Tells a known) ns told ∧
      (jobs.flatMap fun t => messages t.events) = told.flatMap Option.toList ∧
      (jobs.flatMap fun t => measured t.events) = toldOf ns told ∧
      ((∀ t ∈ jobs, t.brokeDown = false) → ∀ x ∈ told, x.isSome = true) := by
  induction background with
  | none => exact ⟨[], .nil, rfl, rfl, fun _ _ h => nomatch h⟩
  | @send n t ns ts ran _ ih =>
    have done := ended t List.mem_cons_self
    rw [done] at ran
    obtain ⟨first, tells, sent, counted, begins⟩ :=
      (Dispatcher.delivery_of_leads ran).tells ran.happened sure
    obtain ⟨told, more, sent', counted', whole⟩ := ih fun t ht => ended t (List.mem_cons_of_mem _ ht)
    refine ⟨first :: told, .cons tells more, ?_, ?_, fun sound x hx => ?_⟩
    · rw [List.flatMap_cons, List.flatMap_cons, sent, sent']
    · rw [List.flatMap_cons, counted, counted']
      rfl
    · obtain rfl | hx := List.mem_cons.1 hx
      · have unbroken := sound t List.mem_cons_self
        cases x with
        | none => simp [Thread.brokeDown, done, begins, sent, Program.result?] at unbroken
        | some m => rfl
      · exact whole (fun t ht => sound t (List.mem_cons_of_mem _ ht)) x hx
  | @renewal t ns ts renews _ ih =>
    have unsent : messages t.events = [] :=
      List.filterMap_eq_nil_iff.2 fun e he => (silent_of_isRenewal (renews e he)).1
    have untold : measured t.events = [] :=
      List.filterMap_eq_nil_iff.2 fun e he => (silent_of_isRenewal (renews e he)).2
    obtain ⟨told, more, sent, counted, whole⟩ := ih fun t ht => ended t (List.mem_cons_of_mem _ ht)
    refine ⟨told, more, ?_, ?_, fun sound => whole fun t ht => sound t (List.mem_cons_of_mem _ ht)⟩
    · rw [List.flatMap_cons, unsent, sent]
      rfl
    · rw [List.flatMap_cons, untold, counted]
      rfl

section Endings
variable {now : Nat}

theorem completes_answer {r : Request} {P : r.Reply → Prop} (x : r.Reply)
    (h : ∀ m, quiet a now m ⟨r, x⟩ m) (hx : P x) : (Program.request r).Completes (quiet a now) P :=
  Program.completes_request fun m => ⟨x, m, h m, hx⟩

theorem Lease.completes_keep (l : Lease) : l.keep.Completes (quiet a now) fun _ => True := by
  have timed : (Program.request .instant).Completes (quiet a now) fun _ => True :=
    completes_answer (0 : Nat) (fun _ => ⟨⟨trivial, rfl, trivial⟩, rfl⟩) trivial
  refine Program.completes_bind timed fun start _ => ?_
  have waited : (Program.request (.pause (start + l.period) (.lease l))).Completes (quiet a now)
      (· = false) := completes_answer false (fun _ => ⟨⟨trivial, rfl, rfl⟩, rfl⟩) rfl
  refine Program.completes_loop (l := .renewal l (start + l.period))
    (Program.completes_bind waited ?_)
  rintro _ rfl
  exact Program.completes_done trivial

theorem Dispatcher.completes_minutes (d : Dispatcher) (deposit : Deposit) (millis : UInt64) :
    (d.minutes deposit millis).Completes (quiet a now) fun _ => True := by
  unfold Dispatcher.minutes
  split_ifs
  · exact Program.completes_done trivial
  · have averaged : d.commitEstimator.averageOrDefault.Completes (quiet a now) fun _ => True := by
      intro m
      have read : quiet a now m
          ⟨.store (.getInt d.commitEstimator.averageKey), .ok (m.ints d.commitEstimator.averageKey)⟩
          m := ⟨⟨trivial, rfl, trivial⟩, .inl rfl⟩
      refine Program.canEnd_ask read ?_
      simp only [Program.bind, ExceptT.bindCont]
      cases (m.ints d.commitEstimator.averageKey).filter fun v => 0 < v with
      | none => exact Program.completes_done trivial m
      | some v => exact Program.completes_done trivial m
    exact Program.completes_bind averaged fun _ _ => Program.completes_done trivial

theorem Dispatcher.completes_deliver (d : Dispatcher) (n : Notice) :
    (d.deliver n).Completes (quiet a now) fun _ => True := by
  have chains : (Program.request .chainIds).Completes (quiet a now) fun _ => True :=
    completes_answer a.chainIds (fun _ => ⟨⟨trivial, rfl, rfl⟩, rfl⟩) trivial
  have clock : (Program.request .millis).Completes (quiet a now) fun _ => True :=
    completes_answer a.millis (fun _ => ⟨⟨trivial, rfl, rfl⟩, rfl⟩) trivial
  have named : (Program.request .requestId).Completes (quiet a now) fun _ => True :=
    completes_answer "" (fun _ => ⟨⟨trivial, rfl, trivial⟩, rfl⟩) trivial
  have updated : (d.update n).Completes (quiet a now) fun _ => True := by
    refine Program.completes_bind chains fun chains _ => ?_
    split_ifs
    · refine Program.completes_bind clock fun millis _ => ?_
      exact Program.completes_bind (d.completes_minutes _ _) fun _ _ => Program.completes_done trivial
    · exact Program.completes_done trivial
  refine Program.completes_bind updated fun u _ => ?_
  cases u with
  | none => exact Program.completes_done trivial
  | some u =>
    refine Program.completes_bind named fun id _ => ?_
    refine Program.completes_bind clock fun millis _ => ?_
    have sent : (Program.request (.send (.ofUpdate d.bizCode u id millis))).Completes (quiet a now)
        fun _ => True := completes_answer (.ok ()) (fun _ => ⟨⟨trivial, rfl, rfl⟩, rfl⟩) trivial
    exact Program.completes_bind sent fun _ _ =>
      completes_answer () (fun _ => ⟨⟨trivial, rfl, trivial⟩, rfl⟩) trivial

theorem completes_starts (e : Event) :
    ∀ p ∈ e.starts, p.Completes (quiet a now) fun _ => True := by
  obtain ⟨r, x⟩ := e
  intro p hp
  cases r with
  | launch d n =>
    obtain rfl := List.mem_singleton.1 hp
    exact d.completes_deliver n
  | hold l =>
    obtain rfl := List.mem_singleton.1 hp
    exact l.completes_keep
  | _ => cases hp

end Endings
end BridgeNotifier
