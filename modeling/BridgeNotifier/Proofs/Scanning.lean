import BridgeNotifier.Proofs.History
import BridgeNotifier.Proofs.Scan
set_option autoImplicit false

/-!
# Scans of a history

Which blocks were scanned, as somebody sees who notes the pages of scans. A scan is completed when
its pages were read from the first one on, one after another, up to a page that is not full.
-/
namespace BridgeNotifier

/-- The scan under way with the rows it has read, the ranges that were asked about, and those whose
scan was completed. -/
structure Scanning where
  reading : Option (UInt32 × BlockRange × UInt64)
  asked : List BlockRange
  completed : List BlockRange

namespace Scanning

def start : Scanning := ⟨none, [], []⟩

def next (o : Scanning) : Event → Scanning
  | ⟨.records (.maturing network range limit offset), .ok rows⟩ =>
    if offset = 0 ∨ o.reading = some (network, range, offset) then
      if UInt64.ofNat rows.length < limit.toUInt64 then
        ⟨none, o.asked ++ [range], o.completed ++ [range]⟩
      else
        ⟨some (network, range, offset + UInt64.ofNat rows.length), o.asked ++ [range], o.completed⟩
    else ⟨none, o.asked ++ [range], o.completed⟩
  | ⟨.records (.maturing _ range _ _), .error _⟩ => ⟨none, o.asked ++ [range], o.completed⟩
  | _ => o

theorem next_of_quiet (o : Scanning) {e : Event} (h : e.isQuiet = true) : o.next e = o := by
  obtain ⟨r, x⟩ := e
  cases r with
  | records c => cases h
  | _ => rfl

variable {ω : Type}

def alongside (note : Scanning → ω → Event → ω) (o : Scanning × ω) (e : Event) : Scanning × ω :=
  (o.1.next e, note o.1 o.2 e)

theorem foldl_alongside (note : Scanning → ω → Event → ω) (es : List Event) (o : Scanning) (l : ω) :
    es.foldl (alongside note) (o, l) =
      (es.foldl next o, (es.foldl (alongside note) (o, l)).2) := by
  induction es generalizing o l with
  | nil => rfl
  | cons e es ih => exact ih (o.next e) (note o l e)

/-- Notes that neither quiet events nor pages nor sends add to. -/
structure Apart (note : Scanning → ω → Event → ω) : Prop where
  quiet : ∀ o l e, e.isQuiet = true → note o l e = l
  records : ∀ o l c x, note o l ⟨.records c, x⟩ = l
  launch : ∀ o l d n, note o l ⟨.launch d n, ()⟩ = l

end Scanning

namespace Surroundings
open Scanning

variable {ω : Type} {note : Scanning → ω → Event → ω} {allowed : Event → Prop}
variable {E : Error → (String → Option UInt64) × Scanning × ω → Prop}

abbrev scanned (allowed : Event → Prop) (note : Scanning → ω → Event → ω) :
    Surroundings ((String → Option UInt64) × Scanning × ω) :=
  (numbers.only allowed).noted (alongside note)

theorem scanned_shows (apart : Apart note)
    (failed : ∀ e err t, allowed e → e.error? = some err → E err t) :
    (scanned allowed note).Shows Prod.fst E :=
  numbers_shows (fun o e hq => Prod.ext (o.1.next_of_quiet hq) (apart.quiet o.1 o.2 e hq)) failed

end Surroundings

namespace Contract
open Routine Scanning Surroundings

variable {ω : Type} {note : Scanning → ω → Event → ω} {allowed : Event → Prop}
variable {I : (String → Option UInt64) × Scanning × ω → Prop}
variable {E : Error → (String → Option UInt64) × Scanning × ω → Prop}

def Goes (s : Scan) (offset : UInt64) (w : (String → Option UInt64) × Scanning × ω) : Prop :=
  offset = 0 ∨ w.2.1.reading = some (s.network, s.range, offset)

structure Completes (s : Scan) (w t : (String → Option UInt64) × Scanning × ω) : Prop where
  ints : t.1 = w.1
  completed : t.2.1.completed = w.2.1.completed ++ [s.range]
  asked : ∀ r ∈ t.2.1.asked, r ∈ w.2.1.asked ∨ r = s.range
  notes : t.2.2 = w.2.2

abbrev scanning (E : Error → (String → Option UInt64) × Scanning × ω → Prop) :
    Contract ((String → Option UInt64) × Scanning × ω) :=
  scans E Goes Completes

/-- Pages add to the notes on scans only, so it is enough that `I` does not mind more of them. -/
theorem scanning_kept (apart : Apart note)
    (failed : ∀ e err t, allowed e → e.error? = some err → E err t)
    (more : ∀ f o reading asked completed l, I (f, o, l) →
      I (f, ⟨reading, asked, o.completed ++ completed⟩, l)) :
    (scanning E).Kept (scanned allowed note) I := by
  have more' : ∀ {f o reading asked l}, I (f, o, l) → I (f, ⟨reading, asked, o.completed⟩, l) :=
    fun {f o reading asked l} h => by simpa using more f o reading asked [] l h
  have seen : ∀ {o : Scanning} {r range : BlockRange}, r ∈ o.asked ++ [range] →
      r ∈ o.asked ∨ r = range := fun h => by simpa using h
  refine scans_kept (scanned_shows apart failed) ?_ ?_
  · rintro ⟨f, o, l⟩ d n ⟨g, o', l'⟩ ⟨⟨-, hg⟩, h⟩
    have hl : note o l ⟨.launch d n, ()⟩ = l := apart.launch o l d n
    exact Prod.ext hg (h.trans (Prod.ext rfl hl))
  · rintro s offset ⟨f, o, l⟩ x ⟨g, o', l'⟩ hI begin ⟨⟨-, hg⟩, h⟩
    have hl : l' = l := (congrArg Prod.snd h).trans (apart.records o l _ x)
    have ho : o' = o.next ⟨.records (.maturing s.network s.range s.pageSize offset), x⟩ :=
      congrArg Prod.fst h
    obtain rfl : g = f := hg
    subst hl
    cases x with
    | error e => exact ⟨by rw [ho]; exact more' hI, fun rows hr => nomatch hr⟩
    | ok rows =>
      simp only [next, if_pos (show offset = 0 ∨ o.reading = _ from begin)] at ho
      by_cases hlt : UInt64.ofNat rows.length < s.pageSize.toUInt64
      · rw [if_pos hlt] at ho
        subst ho
        refine ⟨more _ _ _ _ _ _ hI, ?_⟩
        rintro rows' hr
        cases hr
        rw [if_pos hlt]
        exact ⟨rfl, rfl, fun r hr => seen hr, rfl⟩
      · rw [if_neg hlt] at ho
        subst ho
        refine ⟨more' hI, ?_⟩
        rintro rows' hr
        cases hr
        rw [if_neg hlt]
        refine ⟨.inr rfl, fun u hu => ⟨hu.ints, hu.completed, fun r hr => ?_, hu.notes⟩⟩
        obtain hr | hr := hu.asked r hr
        · exact seen hr
        · exact .inr hr

end Contract

def Tick.scanning (t : Tick) : Scanning :=
  t.events.foldl Scanning.next .start

end BridgeNotifier
