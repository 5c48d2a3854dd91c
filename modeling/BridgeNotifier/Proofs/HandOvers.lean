import BridgeNotifier.Proofs.Feed
import BridgeNotifier.Proofs.Ownership
import BridgeNotifier.Proofs.Tables
set_option autoImplicit false

namespace BridgeNotifier

/-- The subjects of the sends a tick started, those before its last write and those after it. -/
structure HandOvers where
  settled : List Subject
  pending : List Subject

namespace HandOvers

def start : HandOvers := ⟨[], []⟩

def next (o : HandOvers) : Event → HandOvers
  | ⟨.launch _ n, _⟩ => ⟨o.settled, o.pending ++ [n.subject]⟩
  | ⟨.store (.setInt _ _), .ok _⟩ => ⟨o.settled ++ o.pending, []⟩
  | _ => o

theorem next_of_quiet (o : HandOvers) {e : Event} (h : e.isQuiet = true) : o.next e = o := by
  obtain ⟨r, x⟩ := e
  cases r with
  | store c =>
    cases c with
    | setInt k v =>
      cases x with
      | ok u => cases h
      | error err => rfl
    | _ => rfl
  | launch d n => cases h
  | _ => rfl

end HandOvers

abbrev Ledger := ((String → Option UInt64) × RecordTable) × HandOvers

namespace Ledger

variable (w : Ledger)

def ints : String → Option UInt64 := w.1.1
def table : RecordTable := w.1.2
def settled : List Subject := w.2.settled
def pending : List Subject := w.2.pending

end Ledger

namespace Surroundings

variable {allowed : Event → Prop} {w v : Ledger}

abbrev ledger (allowed : Event → Prop) : Surroundings Ledger :=
  (numbers.tabled.only allowed).noted HandOvers.next

theorem ledger_shows : (ledger allowed).Shows Ledger.ints fun _ _ => True where
  quiet := by
    rintro w ⟨r, x⟩ v ⟨⟨-, h⟩, hv⟩ hq
    have hints := eq_of_numbers h.1 hq
    have htable : v.1.2 = w.1.2 := tabled_eq (fun c hc => by subst hc; cases hq) h
    exact Prod.ext (Prod.ext hints htable) (hv.trans (w.2.next_of_quiet hq))
  read h := h.1.2.1.1
  write h := h.1.2.1
  records h := h.1.2.1
  launch h := h.1.2.1
  depth h := h.1.2.1
  failed _ _ := trivial

theorem ledger_records {c : RecordCall} {x : Except Error c.Answer}
    (h : ledger allowed w ⟨.records c, x⟩ v) : v.ints = w.ints ∧ w.table.Grows v.table ∧
      v.settled = w.settled ∧ v.pending = w.pending ∧ ∀ a, x = .ok a → a = v.table.answer c := by
  have hn : v.2 = w.2 := h.2
  exact ⟨h.1.2.1, h.1.2.2.1, by rw [Ledger.settled, hn]; rfl, by rw [Ledger.pending, hn]; rfl,
    h.1.2.2.2⟩

theorem ledger_launch {d : Dispatcher} {n : Notice} (h : ledger allowed w ⟨.launch d n, ()⟩ v) :
    v.ints = w.ints ∧ v.table = w.table ∧ v.settled = w.settled ∧
      v.pending = w.pending ++ [n.subject] := by
  have hn : v.2 = ⟨w.settled, w.pending ++ [n.subject]⟩ := h.2
  exact ⟨h.1.2.1, h.1.2.2, by rw [Ledger.settled, hn], by rw [Ledger.pending, hn]⟩

theorem ledger_write {key : String} {value : UInt64}
    (h : ledger allowed w ⟨.store (.setInt key value), .ok ()⟩ v) :
    v.ints = Function.update w.ints key (some value) ∧ v.table = w.table ∧
      v.settled = w.settled ++ w.pending ∧ v.pending = [] := by
  have hn : v.2 = ⟨w.settled ++ w.pending, []⟩ := h.2
  exact ⟨h.1.2.1, h.1.2.2, by rw [Ledger.settled, hn], by rw [Ledger.pending, hn]⟩

theorem ledger_depth {d : UInt64} (h : ledger allowed w ⟨.depth, d⟩ v) : v = w :=
  Prod.ext (Prod.ext h.1.2.1 h.1.2.2) h.2

end Surroundings

/-- The positions that a task is done with, as the numbers of the store say. -/
def Setup.passed (s : Setup) (depth : UInt64) (f : String → Option UInt64) : Task → UInt64 → Bool
  | .maturity, block =>
    match f (s.key .scanned) with
    | some x => block ≤ x
    | none => block.toNat + depth.toNat ≤ ((f (s.key .head)).getD 0).toNat
  | .batch r, block => block ≤ (f (s.key r.ceiling)).getD 0
  | .feed fd, id => (f (s.key fd.watermark)).any fun last => id ≤ last

/-- What the hand-overs of a task about a subject are bounded by: settled ones, with `base` of them
before this tick, by the entries it is done with, and pending ones by the others. -/
structure Accounted (s : Setup) (depth : UInt64) (t : Task) (x : Subject) (base : Nat)
    (w : Ledger) : Prop where
  kept : w.table.WellKept
  settled : base + w.settled.count x ≤ tally (t.entries w.table) x (s.passed depth w.ints t)
  pending : w.pending.count x ≤ tally (t.entries w.table) x fun p => !s.passed depth w.ints t p

/-- Hand-overs of a subject to entries at some positions, which a task is not done with. -/
structure Owing (s : Setup) (depth : UInt64) (t : Task) (x : Subject) (a : UInt64 → Bool)
    (count : Nat) (w : Ledger) : Prop where
  count_le : count ≤ tally (t.entries w.table) x a
  fresh : ∀ p, Storable p → a p = true → s.passed depth w.ints t p = false

section Account
open Surroundings

variable {allowed : Event → Prop} {s : Setup} {depth : UInt64} {t : Task} {x : Subject} {base : Nat}
variable {w v : Ledger} {a : UInt64 → Bool} {n : Nat}

theorem Owing.of_records {c : RecordCall} {y : Except Error c.Answer} (h : Owing s depth t x a n w)
    (hv : ledger allowed w ⟨.records c, y⟩ v) : Owing s depth t x a n v := by
  obtain ⟨hints, hgrows, -⟩ := ledger_records hv
  obtain ⟨more, hmore⟩ := t.entries_grows hgrows
  refine ⟨?_, by rw [hints]; exact h.fresh⟩
  rw [hmore]
  exact Nat.le_trans h.count_le (tally_append more)

namespace Accounted

theorem of_records {c : RecordCall} {y : Except Error c.Answer} (h : Accounted s depth t x base w)
    (hv : ledger allowed w ⟨.records c, y⟩ v) : Accounted s depth t x base v := by
  obtain ⟨hints, hgrows, hsettled, hpending, -⟩ := ledger_records hv
  obtain ⟨more, hmore⟩ := t.entries_grows hgrows
  refine ⟨hgrows.wellKept h.kept, ?_, ?_⟩
  · rw [hsettled, hints, hmore]
    exact Nat.le_trans h.settled (tally_append more)
  · rw [hpending, hints, hmore]
    exact Nat.le_trans h.pending (tally_append more)

theorem of_launch {d : Dispatcher} {m : Notice} (h : Accounted s depth t x base w)
    (hv : ledger allowed w ⟨.launch d m, ()⟩ v) (ho : Owing s depth t x a n w)
    (hn : v.pending.count x ≤ n) : Accounted s depth t x base v := by
  obtain ⟨hints, htable, hsettled, -⟩ := ledger_launch hv
  refine ⟨htable ▸ h.kept, ?_, ?_⟩
  · rw [hsettled, htable, hints]
    exact h.settled
  · refine Nat.le_trans hn (Nat.le_trans ho.count_le ?_)
    rw [htable, hints]
    exact tally_mono fun e he hae => by rw [ho.fresh e.1 (t.entries_lt h.kept e he) hae]; rfl

theorem of_write {key : String} {value : UInt64} (h : Accounted s depth t x base w)
    (hv : ledger allowed w ⟨.store (.setInt key value), .ok ()⟩ v)
    (ho : Owing s depth t x a (w.pending.count x) w)
    (hpassed : ∀ p, Storable p → s.passed depth w.ints t p = true ∨ a p = true →
      s.passed depth v.ints t p = true) : Accounted s depth t x base v := by
  obtain ⟨-, htable, hsettled, hpending⟩ := ledger_write hv
  have lt := t.entries_lt h.kept
  refine ⟨htable ▸ h.kept, ?_, ?_⟩
  · rw [hsettled, htable, List.count_append]
    have hsum := tally_add (x := x) (fun e he => ho.fresh e.1 (lt e he))
      (fun e he hp => hpassed e.1 (lt e he) (.inl hp)) fun e he ha => hpassed e.1 (lt e he) (.inr ha)
    have hs := h.settled
    have hp := ho.count_le
    omega
  · rw [hpending]
    exact Nat.zero_le _

theorem total_le (h : Accounted s depth t x base w) :
    base + w.settled.count x + w.pending.count x ≤ tally (t.entries w.table) x fun _ => true := by
  have hsum : tally (t.entries w.table) x (s.passed depth w.ints t) +
      tally (t.entries w.table) x (fun p => !s.passed depth w.ints t p) ≤
        tally (t.entries w.table) x fun _ => true :=
    tally_add (fun _ _ hp => by simpa using hp) (fun _ _ _ => rfl) fun _ _ _ => rfl
  have hs := h.settled
  have hp := h.pending
  omega

end Accounted

structure Announcing (s : Setup) (depth : UInt64) (t : Task) (x : Subject) (a : UInt64 → Bool)
    (total : Nat) (f : String → Option UInt64) (left : Nat) (w : Ledger) : Prop where
  ints : w.ints = f
  owing : Owing s depth t x a total w
  count : w.pending.count x + left ≤ total

namespace Announcing

variable {f : String → Option UInt64} {total left left' : Nat}

theorem skip (h : Announcing s depth t x a total f left w) (hle : left' ≤ left) :
    Announcing s depth t x a total f left' w := by
  refine ⟨h.ints, h.owing, ?_⟩
  have hc := h.count
  omega

theorem of_records {c : RecordCall} {y : Except Error c.Answer}
    (h : Announcing s depth t x a total f left w) (hv : ledger allowed w ⟨.records c, y⟩ v) :
    Announcing s depth t x a total f left v := by
  obtain ⟨hints, -, -, hpending, -⟩ := ledger_records hv
  exact ⟨hints.trans h.ints, h.owing.of_records hv, hpending ▸ h.count⟩

theorem of_launch {d : Dispatcher} {m : Notice} (h : Announcing s depth t x a total f left w)
    (hI : Accounted s depth t x base w) (hv : ledger allowed w ⟨.launch d m, ()⟩ v)
    (hle : (if m.subject = x then 1 else 0) + left' ≤ left) :
    Accounted s depth t x base v ∧ Announcing s depth t x a total f left' v := by
  obtain ⟨hints, htable, -, hpending⟩ := ledger_launch hv
  have hcount : v.pending.count x = w.pending.count x + if m.subject = x then 1 else 0 := by
    rw [hpending, List.count_append, List.count_singleton]
    simp only [beq_iff_eq]
  have hc := h.count
  refine ⟨hI.of_launch hv h.owing (by omega), hints.trans h.ints, ⟨?_, ?_⟩, by omega⟩
  · rw [htable]
    exact h.owing.count_le
  · rw [hints]
    exact h.owing.fresh

end Announcing
end Account
end BridgeNotifier
