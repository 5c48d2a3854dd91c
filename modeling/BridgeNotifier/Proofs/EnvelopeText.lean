import BridgeNotifier.Notice.Update
import BridgeNotifier.Proofs.JsonText
set_option autoImplicit false

namespace BridgeNotifier
open Json

namespace TransferUpdate

def fields (u : TransferUpdate) : List (String × Option Value) :=
  [("fromChain", some (word32 u.fromChain)),
   ("toChain", some (word32 u.toChain)),
   ("fromChainId", u.fromChainId.map word64),
   ("toChainId", u.toChainId.map word64),
   ("bridgeToken", u.bridgeToken.map .text),
   ("tokenAmount", u.tokenAmount.map .text),
   ("estimateTime", u.estimateTime.map word32),
   ("time", u.time.map word64),
   ("txHash", some (.text u.txHash)),
   ("index", some (word64 u.index)),
   ("status", some (word32 u.status)),
   ("blockNumber", u.blockNumber.map word64),
   ("destAddr", some (.text u.destAddr)),
   ("globalIndex", u.globalIndex.map .text),
   ("claimTxHash", u.claimTxHash.map .text),
   ("claimTime", u.claimTime.map word64)]

/-- The members of the fields that have a value. -/
def present (fs : List (String × Option Value)) : List (String × Value) :=
  fs.filterMap fun f => f.2.map (f.1, ·)

theorem present_some (name : String) (v : Value) (fs : List (String × Option Value)) :
    present ((name, some v) :: fs) = (name, v) :: present fs := rfl

theorem present_none (name : String) (fs : List (String × Option Value)) :
    present ((name, none) :: fs) = present fs := rfl

theorem present_map {α : Type} (name : String) (write : α → Value) (o : Option α)
    (fs : List (String × Option Value)) :
    present ((name, o.map write) :: fs) = member? name write o ++ present fs := by
  cases o with
  | none => rfl
  | some a => rfl

theorem members_eq_present (u : TransferUpdate) : u.members = present u.fields := by
  simp only [members, fields, present_some, present_map, List.append_assoc, List.cons_append,
    List.nil_append]
  simp [present]

theorem name_mem_of_mem_present {m : String × Value} {fs : List (String × Option Value)}
    (h : m ∈ present fs) : m.1 ∈ fs.map Prod.fst := by
  obtain ⟨f, hf, eq⟩ := List.mem_filterMap.1 h
  obtain ⟨v, -, rfl⟩ := Option.map_eq_some_iff.1 eq
  exact List.mem_map_of_mem hf

theorem eq_of_present_eq {fs gs : List (String × Option Value)}
    (names : fs.map Prod.fst = gs.map Prod.fst) (distinct : (fs.map Prod.fst).Nodup)
    (h : present fs = present gs) : fs = gs := by
  induction fs generalizing gs with
  | nil => exact (List.map_eq_nil_iff.1 names.symm).symm
  | cons f fs ih =>
    cases gs with
    | nil => simp at names
    | cons g gs =>
      obtain ⟨name, a⟩ := f
      obtain ⟨name', b⟩ := g
      simp only [List.map_cons, List.cons.injEq] at names
      obtain ⟨rfl, names⟩ := names
      obtain ⟨fresh, others⟩ := List.nodup_cons.1 distinct
      cases a with
      | none =>
        cases b with
        | none =>
          rw [ih names others h]
        | some w =>
          rw [present_none, present_some] at h
          exact absurd (name_mem_of_mem_present (h ▸ List.mem_cons_self)) fresh
      | some v =>
        cases b with
        | none =>
          rw [present_none, present_some] at h
          exact absurd (name_mem_of_mem_present (h ▸ List.mem_cons_self)) (names ▸ fresh)
        | some w =>
          rw [present_some, present_some, List.cons.injEq, Prod.mk.injEq] at h
          rw [ih names others h.2, h.1.2]

theorem word32_injective : Function.Injective word32 := by
  intro a b h
  exact UInt32.toNat_inj.1 (Int.ofNat.inj (Value.int.inj h))

theorem word64_injective : Function.Injective word64 := by
  intro a b h
  exact UInt64.toNat_inj.1 (Int.ofNat.inj (Value.int.inj h))

theorem fields_injective : Function.Injective fields := by
  intro u w h
  have text : Function.Injective Value.text := fun _ _ => Value.text.inj
  obtain ⟨⟩ := u
  obtain ⟨⟩ := w
  simp only [fields, List.cons.injEq, Prod.mk.injEq, true_and, Option.some.injEq, and_true,
    (Option.map_injective text).eq_iff, (Option.map_injective word32_injective).eq_iff,
    (Option.map_injective word64_injective).eq_iff, word32_injective.eq_iff,
    word64_injective.eq_iff, text.eq_iff] at h
  simpa using h

theorem members_injective : Function.Injective members := by
  intro u w h
  rw [members_eq_present, members_eq_present] at h
  exact fields_injective (eq_of_present_eq rfl (by simp [fields]) h)

theorem wholeMembers_present {fs : List (String × Option Value)}
    (h : ∀ f ∈ fs, ∀ v, f.2 = some v → v.Whole) : WholeMembers (present fs) := by
  induction fs with
  | nil => trivial
  | cons f fs ih =>
    obtain ⟨first, others⟩ := List.forall_mem_cons.1 h
    obtain ⟨name, o⟩ := f
    cases o with
    | none => exact ih others
    | some v => exact ⟨first v rfl, ih others⟩

theorem whole_toJson (u : TransferUpdate) : u.toJson.Whole := by
  rw [toJson, members_eq_present]
  refine wholeMembers_present ?_
  simp [fields, word32, word64, Value.nat, Value.Whole]

end TransferUpdate

namespace Envelope

/-- The text of an envelope is read as what it was made of. Its content is a list with one object,
whose members are the fields that the update has, so that another update has another content. -/
theorem read_back (bizCode requestId : String) (u : TransferUpdate) (now : UInt64) :
    parse? (ofUpdate bizCode u requestId now).toText =
      some (.object [
        ("bizCode", .text bizCode),
        ("walletAddress", .text u.destAddr),
        ("requestId", .text requestId),
        ("pushContent", .text (ofUpdate bizCode u requestId now).pushContent),
        ("time", .nat now.toNat)]) ∧
    parse? (ofUpdate bizCode u requestId now).pushContent =
      some (.list [.object (TransferUpdate.present u.fields)]) ∧
    ∀ (bizCode' requestId' : String) (u' : TransferUpdate) (now' : UInt64),
      (ofUpdate bizCode' u' requestId' now').pushContent =
        (ofUpdate bizCode u requestId now).pushContent ↔ u' = u := by
  have whole : ∀ u : TransferUpdate, (Value.list [u.toJson]).Whole :=
    fun u => ⟨u.whole_toJson, trivial⟩
  refine ⟨?_, ?_, ?_⟩
  · apply parse?_toText
    simp [toJson, Value.nat, Value.Whole, WholeMembers]
  · rw [← TransferUpdate.members_eq_present]
    exact parse?_toText (whole u)
  · intro bizCode' requestId' u' now'
    constructor
    · intro same
      have lists := toText_injective (whole u') (whole u) same
      simp only [Value.list.injEq, List.cons.injEq, and_true] at lists
      exact TransferUpdate.members_injective (Value.object.inj lists)
    · rintro rfl
      rfl

end Envelope
end BridgeNotifier
