import BridgeNotifier.ChainIds
import Mathlib.Data.List.Nodup
import Mathlib.Data.List.Perm.Subperm
set_option autoImplicit false

namespace BridgeNotifier

section Entries
variable {α β : Type} [BEq α] [LawfulBEq α] {l m : List (α × β)} {a : α} {b : β}

theorem mem_of_lookup (found : l.lookup a = some b) : (a, b) ∈ l := by
  obtain ⟨before, after, rfl, -⟩ := List.lookup_eq_some_iff.1 found
  simp

theorem lookup_eq_some_iff_mem (distinct : (l.map Prod.fst).Nodup) :
    l.lookup a = some b ↔ (a, b) ∈ l := by
  refine ⟨mem_of_lookup, fun mem => ?_⟩
  cases found : l.lookup a with
  | none => exact absurd (List.lookup_eq_none_iff.1 found _ mem) (by simp)
  | some c =>
    have same := List.inj_on_of_nodup_map distinct (mem_of_lookup found) mem rfl
    rw [(Prod.mk.inj same).2]

theorem lookup_eq_none_of_not_mem (h : a ∉ l.map Prod.fst) : l.lookup a = none := by
  refine List.lookup_eq_none_iff.2 fun e he => ?_
  have ne : a ≠ e.1 := fun eq => h (eq ▸ List.mem_map_of_mem he)
  simpa using ne

omit [BEq α] [LawfulBEq α] in
theorem nodup_of_distinct (distinct : (l.map Prod.fst).Nodup) : l.Nodup :=
  .of_map Prod.fst distinct

theorem lookup_eq_iff_mem (hl : (l.map Prod.fst).Nodup) (hm : (m.map Prod.fst).Nodup) :
    (∀ a, l.lookup a = m.lookup a) ↔ ∀ e, e ∈ l ↔ e ∈ m := by
  constructor
  · rintro h ⟨a, b⟩
    rw [← lookup_eq_some_iff_mem hl, ← lookup_eq_some_iff_mem hm, h]
  · intro h a
    ext b
    rw [lookup_eq_some_iff_mem hl, lookup_eq_some_iff_mem hm, h]

theorem sameEntries_iff [BEq β] [LawfulBEq β] (hl : (l.map Prod.fst).Nodup)
    (hm : (m.map Prod.fst).Nodup) :
    ChainIds.sameEntries l m = true ↔ ∀ a, l.lookup a = m.lookup a := by
  have all : (l.all fun e => m.lookup e.1 == some e.2) = true ↔ l ⊆ m := by
    simp only [List.all_eq_true, beq_iff_eq, lookup_eq_some_iff_mem hm]
    rfl
  rw [lookup_eq_iff_mem hl hm, ← List.perm_ext_iff_of_nodup (nodup_of_distinct hl)
    (nodup_of_distinct hm), ChainIds.sameEntries, Bool.and_eq_true, beq_iff_eq, all]
  constructor
  · rintro ⟨length, sub⟩
    exact ((nodup_of_distinct hl).subperm sub).perm_of_length_le (Nat.le_of_eq length.symm)
  · intro perm
    exact ⟨perm.length_eq, perm.subset⟩

theorem firstRepeated_eq_none_iff {seen xs : List α} :
    ChainIds.firstRepeated seen xs = none ↔ xs.Nodup ∧ ∀ x ∈ xs, x ∉ seen := by
  induction xs generalizing seen with
  | nil => simp [ChainIds.firstRepeated]
  | cons x xs ih =>
    rw [ChainIds.firstRepeated]
    split
    · rename_i repeated
      simp only [reduceCtorEq, false_iff, not_and]
      exact fun _ fresh => fresh x List.mem_cons_self (by simpa using repeated)
    · rename_i fresh
      rw [ih, List.nodup_cons]
      simp only [List.mem_cons, not_or, forall_eq_or_imp]
      constructor
      · rintro ⟨nodup, other⟩
        exact ⟨⟨fun mem => (other x mem).1 rfl, nodup⟩, by simpa using fresh,
          fun y hy => (other y hy).2⟩
      · rintro ⟨⟨new, nodup⟩, -, other⟩
        exact ⟨nodup, fun y hy => ⟨fun eq => new (eq ▸ hy), other y hy⟩⟩

end Entries

/-- The lists of a table: paired two and two, and without repetitions where ids are looked up. -/
structure ChainIdLists.Paired (lists : ChainIdLists) : Prop where
  networks : lists.networks.length = lists.chainIds.length
  renamed : lists.standardIds.length = lists.innerIds.length
  network_nodup : lists.networks.Nodup
  standard_nodup : lists.standardIds.Nodup
  inner_nodup : lists.innerIds.Nodup

theorem ChainIdLists.Paired.standards_eq {lists : ChainIdLists} (paired : lists.Paired) :
    (lists.standardIds.zip lists.innerIds).map Prod.fst = lists.standardIds :=
  List.map_fst_zip (Nat.le_of_eq paired.renamed)

theorem ChainIdLists.Paired.inners_eq {lists : ChainIdLists} (paired : lists.Paired) :
    (lists.standardIds.zip lists.innerIds).map Prod.snd = lists.innerIds :=
  List.map_snd_zip (Nat.le_of_eq paired.renamed.symm)

namespace ChainIds

variable {lists : ChainIdLists} {t u : ChainIds} {x y : UInt64}

theorem ofLists_eq_ok_iff : ofLists lists = .ok t ↔ lists.Paired ∧
    t = ⟨lists.networks.zip lists.chainIds, lists.standardIds.zip lists.innerIds⟩ := by
  have nodup_iff : ∀ {α : Type} [BEq α] [LawfulBEq α] (xs : List α),
      firstRepeated [] xs = none ↔ xs.Nodup := fun xs => by simp [firstRepeated_eq_none_iff]
  constructor
  · intro h
    have networks : lists.networks.length = lists.chainIds.length := by
      by_contra differ
      simp [ofLists, differ] at h
      cases h
    have renamed : lists.standardIds.length = lists.innerIds.length := by
      by_contra differ
      simp [ofLists, networks, differ] at h
      cases h
    have network : firstRepeated [] lists.networks = none := by
      by_contra repeated
      obtain ⟨n, hn⟩ := Option.ne_none_iff_exists'.1 repeated
      simp [ofLists, networks, renamed, hn] at h
      cases h
    have standard : firstRepeated [] lists.standardIds = none := by
      by_contra repeated
      obtain ⟨n, hn⟩ := Option.ne_none_iff_exists'.1 repeated
      simp [ofLists, networks, renamed, network, hn] at h
      cases h
    have inner : firstRepeated [] lists.innerIds = none := by
      by_contra repeated
      obtain ⟨n, hn⟩ := Option.ne_none_iff_exists'.1 repeated
      simp [ofLists, networks, renamed, network, standard, hn] at h
      cases h
    simp [ofLists, networks, renamed, network, standard, inner] at h
    cases h
    exact ⟨⟨networks, renamed, (nodup_iff _).1 network, (nodup_iff _).1 standard,
      (nodup_iff _).1 inner⟩, rfl⟩
  · rintro ⟨paired, rfl⟩
    have network := (nodup_iff _).2 paired.network_nodup
    have standard := (nodup_iff _).2 paired.standard_nodup
    have inner := (nodup_iff _).2 paired.inner_nodup
    simp [ofLists, paired.networks, paired.renamed, network, standard, inner]
    rfl

/-- Nothing is listed twice on the sides of a table where ids are looked up. -/
structure Distinct (t : ChainIds) : Prop where
  networks : (t.ofNetwork.map Prod.fst).Nodup
  standards : (t.renamed.map Prod.fst).Nodup
  inners : (t.renamed.map Prod.snd).Nodup

theorem distinct_of_ofLists (h : ofLists lists = .ok t) : t.Distinct := by
  obtain ⟨paired, rfl⟩ := ofLists_eq_ok_iff.1 h
  refine ⟨?_, ?_, ?_⟩
  · rw [List.map_fst_zip (Nat.le_of_eq paired.networks)]
    exact paired.network_nodup
  · rw [paired.standards_eq]
    exact paired.standard_nodup
  · rw [paired.inners_eq]
    exact paired.inner_nodup

def flipped (t : ChainIds) : ChainIds :=
  { t with renamed := t.renamed.map Prod.swap }

theorem fst_flipped (t : ChainIds) : t.flipped.renamed.map Prod.fst = t.renamed.map Prod.snd := by
  simp [flipped, Function.comp_def]

theorem snd_flipped (t : ChainIds) : t.flipped.renamed.map Prod.snd = t.renamed.map Prod.fst := by
  simp [flipped, Function.comp_def]

theorem Distinct.flipped (ht : t.Distinct) : t.flipped.Distinct where
  networks := ht.networks
  standards := by rw [fst_flipped]; exact ht.inners
  inners := by rw [snd_flipped]; exact ht.standards

theorem mem_flipped {e : UInt64 × UInt64} : e ∈ t.flipped.renamed ↔ e.swap ∈ t.renamed := by
  simp only [ChainIds.flipped, List.mem_map]
  constructor
  · rintro ⟨d, mem, rfl⟩
    exact mem
  · exact fun mem => ⟨e.swap, mem, rfl⟩

/-- The three maps of two tables agree on every key. -/
structure SameMaps (t u : ChainIds) : Prop where
  networks : ∀ n, t.ofNetwork.lookup n = u.ofNetwork.lookup n
  inners : ∀ x, t.renamed.lookup x = u.renamed.lookup x
  standards : ∀ x, t.flipped.renamed.lookup x = u.flipped.renamed.lookup x

theorem SameMaps.refl (t : ChainIds) : t.SameMaps t :=
  ⟨fun _ => rfl, fun _ => rfl, fun _ => rfl⟩

theorem SameMaps.symm (h : t.SameMaps u) : u.SameMaps t :=
  ⟨fun n => (h.networks n).symm, fun x => (h.inners x).symm, fun x => (h.standards x).symm⟩

theorem SameMaps.trans {w : ChainIds} (h : t.SameMaps u) (h' : u.SameMaps w) : t.SameMaps w where
  networks n := (h.networks n).trans (h'.networks n)
  inners x := (h.inners x).trans (h'.inners x)
  standards x := (h.standards x).trans (h'.standards x)

theorem SameMaps.iff_right {w : ChainIds} (h : u.SameMaps w) : t.SameMaps u ↔ t.SameMaps w :=
  ⟨fun same => same.trans h, fun same => same.trans h.symm⟩

theorem Distinct.flipped_lookup (ht : t.Distinct) (hu : u.Distinct)
    (h : ∀ x, t.renamed.lookup x = u.renamed.lookup x) (x : UInt64) :
    t.flipped.renamed.lookup x = u.flipped.renamed.lookup x := by
  have entries := (lookup_eq_iff_mem ht.standards hu.standards).1 h
  refine (lookup_eq_iff_mem ht.flipped.standards hu.flipped.standards).2 (fun e => ?_) x
  rw [mem_flipped, mem_flipped, entries]

theorem Distinct.same_iff (ht : t.Distinct) (hu : u.Distinct) :
    same t u = true ↔ t.SameMaps u := by
  rw [same, Bool.and_eq_true, sameEntries_iff ht.networks hu.networks,
    sameEntries_iff ht.standards hu.standards]
  constructor
  · rintro ⟨networks, inners⟩
    exact ⟨networks, inners, ht.flipped_lookup hu inners⟩
  · intro h
    exact ⟨h.networks, h.inners⟩

theorem inner_flipped (t : ChainIds) (x : UInt64) : t.flipped.inner x = t.standard x := rfl

theorem standard_flipped (t : ChainIds) (x : UInt64) : t.flipped.standard x = t.inner x := by
  simp [flipped, standard, inner]

theorem Distinct.inner_of_mem (ht : t.Distinct) (mem : (x, y) ∈ t.renamed) : t.inner x = y := by
  rw [inner, (lookup_eq_some_iff_mem ht.standards).2 mem, Option.getD_some]

theorem inner_of_not_mem (h : x ∉ t.renamed.map Prod.fst) : t.inner x = x := by
  rw [inner, lookup_eq_none_of_not_mem h, Option.getD_none]

theorem Distinct.standard_of_mem (ht : t.Distinct) (mem : (x, y) ∈ t.renamed) :
    t.standard y = x :=
  ht.flipped.inner_of_mem (mem_flipped.2 mem)

theorem standard_of_not_mem (h : x ∉ t.renamed.map Prod.snd) : t.standard x = x :=
  inner_of_not_mem (t := t.flipped) (by rwa [fst_flipped])

/-- An id comes back unless it is known as an inner id only: then it stands for itself as well. -/
theorem Distinct.standard_inner_iff (ht : t.Distinct) :
    t.standard (t.inner x) = x ↔ (x ∈ t.renamed.map Prod.snd → x ∈ t.renamed.map Prod.fst) := by
  by_cases listed : x ∈ t.renamed.map Prod.fst
  · obtain ⟨⟨x, y⟩, mem, rfl⟩ := List.mem_map.1 listed
    rw [ht.inner_of_mem mem, ht.standard_of_mem mem]
    simp [listed]
  · rw [inner_of_not_mem listed]
    by_cases known : x ∈ t.renamed.map Prod.snd
    · obtain ⟨⟨z, x⟩, mem, rfl⟩ := List.mem_map.1 known
      have other : z ≠ x := fun eq => listed (List.mem_map.2 ⟨(z, x), mem, eq⟩)
      rw [ht.standard_of_mem mem]
      simp [listed, known, other]
    · rw [standard_of_not_mem known]
      simp [known]

theorem Distinct.inner_standard_iff (ht : t.Distinct) :
    t.inner (t.standard x) = x ↔ (x ∈ t.renamed.map Prod.fst → x ∈ t.renamed.map Prod.snd) := by
  have back := ht.flipped.standard_inner_iff (x := x)
  rwa [standard_flipped, inner_flipped, fst_flipped, snd_flipped] at back

theorem Distinct.meet (ht : t.Distinct) (ne : x ≠ y) (same : t.inner x = t.inner y) :
    (x, y) ∈ t.renamed ∧ y ∉ t.renamed.map Prod.fst ∨
      (y, x) ∈ t.renamed ∧ x ∉ t.renamed.map Prod.fst := by
  by_cases hx : x ∈ t.renamed.map Prod.fst
  · obtain ⟨⟨x, a⟩, left, rfl⟩ := List.mem_map.1 hx
    rw [ht.inner_of_mem left] at same
    by_cases hy : y ∈ t.renamed.map Prod.fst
    · obtain ⟨⟨y, b⟩, right, rfl⟩ := List.mem_map.1 hy
      rw [ht.inner_of_mem right] at same
      have entry := List.inj_on_of_nodup_map ht.inners left right same
      exact absurd (Prod.mk.inj entry).1 ne
    · rw [inner_of_not_mem hy] at same
      exact .inl ⟨same ▸ left, hy⟩
  · rw [inner_of_not_mem hx] at same
    by_cases hy : y ∈ t.renamed.map Prod.fst
    · obtain ⟨⟨y, b⟩, right, rfl⟩ := List.mem_map.1 hy
      rw [ht.inner_of_mem right] at same
      exact .inr ⟨same ▸ right, hx⟩
    · rw [inner_of_not_mem hy] at same
      exact absurd same ne

/-- The translations undo each other but for the ids that occur on one side only, and networks of
different chain ids are told apart unless one has the inner id of the other for its chain id. -/
theorem translations_undo_iff (h : ofLists lists = .ok t) :
    (∀ x, t.standard (t.inner x) = x ↔ (x ∈ lists.innerIds → x ∈ lists.standardIds)) ∧
    (∀ x, t.inner (t.standard x) = x ↔ (x ∈ lists.standardIds → x ∈ lists.innerIds)) ∧
    ∀ m n x y, t.standardOfNetwork? m = some x → t.standardOfNetwork? n = some y → x ≠ y →
      t.external? m = t.external? n →
        (x, y) ∈ lists.standardIds.zip lists.innerIds ∧ y ∉ lists.standardIds ∨
          (y, x) ∈ lists.standardIds.zip lists.innerIds ∧ x ∉ lists.standardIds := by
  have ht := distinct_of_ofLists h
  obtain ⟨paired, rfl⟩ := ofLists_eq_ok_iff.1 h
  have standards := paired.standards_eq
  have inners := paired.inners_eq
  refine ⟨fun x => ?_, fun x => ?_, fun m n x y hm hn ne same => ?_⟩
  · rw [ht.standard_inner_iff, standards, inners]
  · rw [ht.inner_standard_iff, standards, inners]
  · rw [external?, external?, hm, hn, Option.map_some, Option.map_some, Option.some.injEq] at same
    have met := ht.meet ne same
    rwa [standards] at met

def renamedLists (chainIds : List UInt64) : ChainIdLists :=
  ⟨[0, 1], chainIds, [196], [66]⟩

def renamedTable (x y : UInt64) : ChainIds :=
  ⟨[(0, x), (1, y)], [(196, 66)]⟩

theorem translations_undo_renamedChain :
    ofLists (renamedLists [1, 196]) = .ok (renamedTable 1 196) ∧
    (renamedTable 1 196).standard ((renamedTable 1 196).inner 196) = 196 ∧
    (renamedTable 1 196).inner ((renamedTable 1 196).standard 66) = 66 ∧
    (renamedTable 1 196).external? 0 ≠ (renamedTable 1 196).external? 1 := by
  have accepted : ofLists (renamedLists [1, 196]) = .ok (renamedTable 1 196) := rfl
  obtain ⟨back, forth, apart⟩ := translations_undo_iff accepted
  refine ⟨accepted, (back 196).2 (by decide), (forth 66).2 (by decide), fun same => ?_⟩
  exact absurd (apart 0 1 1 196 rfl rfl (by decide) same) (by decide)

/-- A chain that bears the inner id of another one: it does not come back, and the two chains are
known under one id. -/
theorem not_translations_undo :
    ofLists (renamedLists [66, 196]) = .ok (renamedTable 66 196) ∧
    (renamedTable 66 196).standard ((renamedTable 66 196).inner 66) = 196 ∧
    (renamedTable 66 196).inner ((renamedTable 66 196).standard 196) = 66 ∧
    (renamedTable 66 196).standardOfNetwork? 0 = some 66 ∧
    (renamedTable 66 196).standardOfNetwork? 1 = some 196 ∧
    (renamedTable 66 196).external? 0 = some 66 ∧ (renamedTable 66 196).external? 1 = some 66 :=
  ⟨rfl, rfl, rfl, rfl, rfl, rfl, rfl⟩

end ChainIds
end BridgeNotifier
