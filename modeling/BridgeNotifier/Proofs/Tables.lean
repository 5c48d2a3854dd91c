import BridgeNotifier.Proofs.History
import BridgeNotifier.Records.Table
set_option autoImplicit false

namespace BridgeNotifier

abbrev Storable (n : UInt64) : Prop :=
  n.toNat < 0x8000000000000000

namespace RecordTable

/-- Rows in id order, with ids and blocks as a database with signed columns holds them. -/
structure WellKept (t : RecordTable) : Prop where
  depositIds : t.deposits.Pairwise fun d e => d.id < e.id
  claimIds : t.claims.Pairwise fun c e => c.id < e.id
  deposits : ∀ e ∈ t.deposits, Storable e.id ∧ Storable e.deposit.block
  claims : ∀ e ∈ t.claims, Storable e.id

structure Grows (t u : RecordTable) : Prop where
  deposits : ∃ more, u.deposits = t.deposits ++ more
  claims : ∃ more, u.claims = t.claims ++ more
  wellKept : t.WellKept → u.WellKept

theorem Grows.refl (t : RecordTable) : t.Grows t :=
  ⟨⟨[], (List.append_nil _).symm⟩, ⟨[], (List.append_nil _).symm⟩, id⟩

theorem Grows.trans {t u v : RecordTable} (h : t.Grows u) (h' : u.Grows v) : t.Grows v := by
  obtain ⟨⟨ds, hd⟩, ⟨cs, hc⟩, hw⟩ := h
  obtain ⟨⟨ds', hd'⟩, ⟨cs', hc'⟩, hw'⟩ := h'
  exact ⟨⟨ds ++ ds', by rw [hd', hd, List.append_assoc]⟩,
    ⟨cs ++ cs', by rw [hc', hc, List.append_assoc]⟩, hw' ∘ hw⟩

theorem length_le_of_sorted {ids : List Nat} {low high : Nat} (sorted : ids.Pairwise (· < ·))
    (within : ∀ n ∈ ids, low ≤ n ∧ n < high) : ids.length ≤ high - low := by
  induction ids generalizing low with
  | nil => exact Nat.zero_le _
  | cons n ids ih =>
    obtain ⟨above, sorted⟩ := List.pairwise_cons.1 sorted
    have hn := within n (by simp)
    have rest : ∀ m ∈ ids, n + 1 ≤ m ∧ m < high :=
      fun m hm => ⟨above m hm, (within m (by simp [hm])).2⟩
    have hle := ih sorted rest
    rw [List.length_cons]
    omega

theorem WellKept.length_le {t : RecordTable} (h : t.WellKept) :
    t.deposits.length ≤ 0x8000000000000000 := by
  have sorted : (t.deposits.map fun e => e.id.toNat).Pairwise (· < ·) :=
    List.pairwise_map.2 h.depositIds
  have within : ∀ n ∈ t.deposits.map fun e => e.id.toNat, 0 ≤ n ∧ n < 0x8000000000000000 := by
    intro n hn
    obtain ⟨e, he, rfl⟩ := List.mem_map.1 hn
    exact ⟨Nat.zero_le _, (h.deposits e he).1⟩
  have hle := length_le_of_sorted sorted within
  simpa using hle

end RecordTable

def Event.asksRecords : Event → Bool
  | ⟨.records _, _⟩ => true
  | _ => false

namespace Surroundings

variable {σ τ : Type}

/-- Surroundings with a table that is asked, and may have grown before it answers. -/
def tabled (S : Surroundings σ) : Surroundings (σ × RecordTable) := fun w e v =>
  S w.1 e v.1 ∧
    match e with
    | ⟨.records c, x⟩ => w.2.Grows v.2 ∧ ∀ a, x = .ok a → a = v.2.answer c
    | _ => v.2 = w.2

theorem tabled_map {S : Surroundings σ} {T : Surroundings τ} {f : σ → τ} {w v : σ × RecordTable}
    {e : Event} (hf : ∀ s e t, S s e t → T (f s) e (f t)) (h : S.tabled w e v) :
    T.tabled (f w.1, w.2) e (f v.1, v.2) :=
  ⟨hf _ _ _ h.1, h.2⟩

theorem tabled_eq {S : Surroundings σ} {w v : σ × RecordTable} {r : Request} {x : r.Reply}
    (hr : ∀ c, r ≠ .records c) (h : S.tabled w ⟨r, x⟩ v) : v.2 = w.2 := by
  cases r with
  | records c => exact absurd rfl (hr c)
  | _ => exact h.2

theorem grows_of_leads {S : Surroundings σ} {α : Type} {p q : Program α} {w v : σ × RecordTable}
    {es : List Event} (run : p.Leads S.tabled w es q v) : w.2.Grows v.2 := by
  induction run with
  | refl p w => exact .refl _
  | @ask r k x w u v es q h _ ih =>
    cases r with
    | records c => exact h.2.1.trans ih
    | _ => exact (show u.2 = w.2 from h.2) ▸ ih
  | call _ ih => exact ih

theorem leads_of_grown {S : Surroundings σ} {α : Type} {p q : Program α} {x y : σ}
    {t u v : RecordTable} {es : List Event} (grows : t.Grows u)
    (run : p.Leads S.tabled (x, u) es q (y, v)) (asks : es.any Event.asksRecords = true) :
    p.Leads S.tabled (x, t) es q (y, v) := by
  generalize hw : (x, u) = w at run
  generalize hz : (y, v) = z at run
  induction run generalizing x with
  | refl p w => cases asks
  | @ask r k a w w' z es q h rest ih =>
    subst hw hz
    cases r with
    | records c => exact .ask ⟨h.1, grows.trans h.2.1, h.2.2⟩ rest
    | _ =>
      obtain ⟨x', u'⟩ := w'
      obtain rfl : u' = u := h.2
      exact .ask (t := (x', t)) ⟨h.1, rfl⟩ (ih asks rfl rfl)
  | call _ ih => exact .call (ih asks hw hz)

end Surroundings

/-- What a notice is about: a deposit and the status it reached, or a claim. -/
inductive Subject where
  | deposit (d : Deposit) (status : Status)
  | claim (c : Claim)
  deriving DecidableEq, Repr

def Notice.subject (n : Notice) : Subject :=
  match n.claim with
  | some c => .claim c
  | none => .deposit n.deposit n.status

def RecordTable.rows (t : RecordTable) : Subject → Nat
  | .deposit d _ => t.deposits.countP fun e => e.deposit = d
  | .claim c => t.claims.countP fun e => e.claim = c

/-- What a task can announce, each with the block or the id it comes up with. -/
def Task.entries (t : Task) (table : RecordTable) : List (UInt64 × Subject) :=
  match t with
  | .maturity => table.deposits.map fun e => (e.deposit.block, .deposit e.deposit .pendingAutoClaim)
  | .batch r => table.deposits.map fun e => (e.deposit.block, .deposit e.deposit r.status)
  | .feed .deposits => table.deposits.map fun e => (e.id, .deposit e.deposit .created)
  | .feed .claims => table.claims.map fun e => (e.id, .claim e.claim)

theorem Task.entries_lt {table : RecordTable} (h : table.WellKept) (t : Task) :
    ∀ e ∈ t.entries table, Storable e.1 := by
  intro e he
  rcases t with _ | r | (_ | _)
  · obtain ⟨d, hd, rfl⟩ := List.mem_map.1 he
    exact (h.deposits d hd).2
  · obtain ⟨d, hd, rfl⟩ := List.mem_map.1 he
    exact (h.deposits d hd).2
  · obtain ⟨d, hd, rfl⟩ := List.mem_map.1 he
    exact (h.deposits d hd).1
  · obtain ⟨c, hc, rfl⟩ := List.mem_map.1 he
    exact h.claims c hc

theorem Task.entries_grows {t u : RecordTable} (h : t.Grows u) (task : Task) :
    ∃ more, task.entries u = task.entries t ++ more := by
  obtain ⟨deposits, hd⟩ := h.deposits
  obtain ⟨claims, hc⟩ := h.claims
  refine ⟨task.entries ⟨deposits, claims⟩, ?_⟩
  rcases task with _ | r | (_ | _) <;> simp only [entries, hd, hc, List.map_append]

def Subject.task? : Subject → Option Task
  | .deposit _ .created => some (.feed .deposits)
  | .deposit _ .pendingAutoClaim => some .maturity
  | .deposit _ .pendingVerification => some (.batch .commit)
  | .deposit _ .verified => some (.batch .verify)
  | .deposit _ .claimed => none
  | .claim _ => some (.feed .claims)

theorem Task.task?_of_mem_entries {t : Task} {table : RecordTable} {e : UInt64 × Subject}
    (he : e ∈ t.entries table) : e.2.task? = some t := by
  rcases t with _ | (_ | _) | (_ | _) <;>
  · obtain ⟨row, -, rfl⟩ := List.mem_map.1 he
    rfl

def tally (entries : List (UInt64 × Subject)) (x : Subject) (among : UInt64 → Bool) : Nat :=
  entries.countP fun e => e.2 = x && among e.1

section Tally
variable {entries : List (UInt64 × Subject)} {x : Subject} {a b c : UInt64 → Bool}

theorem tally_mono (h : ∀ e ∈ entries, a e.1 = true → b e.1 = true) :
    tally entries x a ≤ tally entries x b := by
  refine List.countP_mono_left fun e he hx => ?_
  rw [Bool.and_eq_true] at hx ⊢
  exact ⟨hx.1, h e he hx.2⟩

theorem tally_append (more : List (UInt64 × Subject)) :
    tally entries x a ≤ tally (entries ++ more) x a := by
  rw [tally, tally, List.countP_append]
  exact Nat.le_add_right _ _

theorem tally_eq_zero {t : Task} {table : RecordTable} (h : x.task? ≠ some t) :
    tally (t.entries table) x a = 0 := by
  refine List.countP_eq_zero.2 fun e he hx => h ?_
  rw [Bool.and_eq_true, decide_eq_true_eq] at hx
  rw [← hx.1]
  exact Task.task?_of_mem_entries he

theorem tally_le_rows (t : Task) (table : RecordTable) :
    tally (t.entries table) x a ≤ table.rows x := by
  have deposits : ∀ (position : DepositEntry → UInt64) (d : Deposit) (status : Status),
      tally (table.deposits.map fun e => (position e, .deposit e.deposit status)) (.deposit d status) a ≤
        table.rows (.deposit d status) := by
    intro position d status
    rw [tally, List.countP_map]
    refine List.countP_mono_left fun e _ he => ?_
    simp only [Function.comp_apply, Bool.and_eq_true, decide_eq_true_eq, Subject.deposit.injEq] at he ⊢
    exact he.1.1
  by_cases h : x.task? = some t
  · rcases x with ⟨d, _ | _ | _ | _ | _⟩ | c
    · obtain rfl := Option.some.inj h
      exact deposits _ d _
    · obtain rfl := Option.some.inj h
      exact deposits _ d _
    · obtain rfl := Option.some.inj h
      exact deposits _ d _
    · obtain rfl := Option.some.inj h
      exact deposits _ d _
    · cases h
    · obtain rfl := Option.some.inj h
      rw [Task.entries, tally, List.countP_map]
      refine List.countP_mono_left fun e _ he => ?_
      simp only [Function.comp_apply, Bool.and_eq_true, decide_eq_true_eq, Subject.claim.injEq] at he ⊢
      exact he.1
  · rw [tally_eq_zero h]
    exact Nat.zero_le _

theorem tally_add (apart : ∀ e ∈ entries, b e.1 = true → a e.1 = false)
    (ha : ∀ e ∈ entries, a e.1 = true → c e.1 = true)
    (hb : ∀ e ∈ entries, b e.1 = true → c e.1 = true) :
    tally entries x a + tally entries x b ≤ tally entries x c := by
  induction entries with
  | nil => exact Nat.le_refl _
  | cons e entries ih =>
    have ih := ih (fun e he => apart e (by simp [he])) (fun e he => ha e (by simp [he]))
      fun e he => hb e (by simp [he])
    have hap := apart e (by simp)
    have hae := ha e (by simp)
    have hbe := hb e (by simp)
    simp only [tally, List.countP_cons] at ih ⊢
    by_cases hx : e.2 = x
    · simp only [hx, decide_true, Bool.true_and]
      cases hb : b e.1 with
      | true =>
        rw [hap hb, hbe hb]
        simp only [Bool.false_eq_true, if_true, if_false]
        omega
      | false =>
        cases ha : a e.1 with
        | true =>
          rw [hae ha]
          simp only [Bool.false_eq_true, if_true, if_false]
          omega
        | false =>
          simp only [Bool.false_eq_true, if_false]
          split <;> omega
    · simp only [hx, decide_false, Bool.false_and, Bool.false_eq_true, if_false]
      omega

end Tally
end BridgeNotifier
