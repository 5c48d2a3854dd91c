import BridgeNotifier.Proofs.StillWorld
set_option autoImplicit false

namespace BridgeNotifier

/-- What a key of the store is used for. -/
inductive StoreUse where
  | lock (t : Task)
  | watermark (w : Watermark)
  | window (r : Role)
  | average (r : Role)
  deriving DecidableEq, Repr

namespace StoreUse

def all : List StoreUse :=
  Task.all.map lock ++ Watermark.all.map watermark ++ Role.all.map window ++ Role.all.map average

theorem mem_all (u : StoreUse) : u ∈ all := by
  cases u with
  | lock t => simp [all, t.mem_all]
  | watermark w => simp [all, w.mem_all]
  | window r => cases r <;> decide
  | average r => cases r <;> decide

theorem nodup_all : all.Nodup := by decide

def fixedName? : StoreUse → Option String
  | lock _ => none
  | watermark w => some w.name
  | window r => some r.windowName
  | average r => some r.averageName

def fixedNames : List String := all.filterMap fixedName?

theorem lock_or_fixed (u : StoreUse) :
    (∃ t, u = lock t) ∨ ∃ name ∈ fixedNames, u.fixedName? = some name := by
  have listed : ∀ {name : String}, u.fixedName? = some name → name ∈ fixedNames := fun h =>
    List.mem_filterMap.mpr ⟨u, u.mem_all, h⟩
  cases u with
  | lock t => exact .inl ⟨t, rfl⟩
  | _ => exact .inr ⟨_, listed rfl, rfl⟩

theorem fixedName?_injective {u v : StoreUse} {name : String} (hu : u.fixedName? = some name)
    (hv : v.fixedName? = some name) : u = v := by
  have apart : ∀ u ∈ all, ∀ v ∈ all, u.fixedName?.isSome = true → u.fixedName? = v.fixedName? →
      u = v := by decide
  exact apart u u.mem_all v v.mem_all (by rw [hu]; rfl) (hu.trans hv.symm)

end StoreUse

def keyPrefix (ns : String) : String :=
  if ns = "" then "" else ns ++ ":"

theorem storeKey_eq (ns name : String) : storeKey ns name = keyPrefix ns ++ name := by
  unfold storeKey keyPrefix
  split
  · rw [String.empty_append]
  · rfl

theorem keyPrefix_injective {ns ns' : String} (h : keyPrefix ns = keyPrefix ns') : ns = ns' := by
  unfold keyPrefix at h
  split at h <;> split at h
  case isTrue.isTrue empty empty' => rw [empty, empty']
  case isTrue.isFalse => exact absurd (congrArg String.toList h) (by simp)
  case isFalse.isTrue => exact absurd (congrArg String.toList h) (by simp)
  case isFalse.isFalse => exact (String.append_left_inj ":").mp h

theorem colon_mem_of_keyPrefix {ns ns' rest : String} (other : ns ≠ ns')
    (longer : keyPrefix ns' = keyPrefix ns ++ rest) : ':' ∈ rest.toList := by
  have adds : rest ≠ "" := by
    rintro rfl
    exact other (keyPrefix_injective (by rw [longer, String.append_empty]))
  have ends : keyPrefix ns' = ns' ++ ":" := by
    refine if_neg fun empty => adds ?_
    rw [keyPrefix, if_pos empty] at longer
    exact (String.append_eq_empty_iff.mp longer.symm).2
  have chars : ns'.toList ++ [':'] = (keyPrefix ns).toList ++ rest.toList := by
    rw [← String.toList_append, ← longer, ends, String.toList_append]
    rfl
  have last := congrArg List.getLast? chars
  rw [List.getLast?_concat, List.getLast?_append_of_ne_nil _ (by simpa using adds)] at last
  exact List.mem_of_getLast? last.symm

theorem keyPrefix_append_eq_iff {ns ns' a b : String} :
    keyPrefix ns ++ a = keyPrefix ns' ++ b ↔
      (∃ rest, keyPrefix ns' = keyPrefix ns ++ rest ∧ a = rest ++ b) ∨
        ∃ rest, keyPrefix ns = keyPrefix ns' ++ rest ∧ b = rest ++ a := by
  simp only [← String.toList_inj, String.toList_append]
  rw [List.append_eq_append_iff]
  constructor
  · rintro (⟨rest, longer, h⟩ | ⟨rest, longer, h⟩)
    · exact .inl ⟨String.ofList rest, by simp [longer], by simp [h]⟩
    · exact .inr ⟨String.ofList rest, by simp [longer], by simp [h]⟩
  · rintro (⟨rest, longer, h⟩ | ⟨rest, longer, h⟩)
    · exact .inl ⟨rest.toList, longer, h⟩
    · exact .inr ⟨rest.toList, longer, h⟩

namespace Setup

variable (s : Setup)

def useKey : StoreUse → String
  | .lock t => s.lockKey t
  | .watermark w => s.key w
  | .window r => (s.estimator r).windowKey
  | .average r => (s.estimator r).averageKey

def useName : StoreUse → String
  | .lock t => s.lockName t
  | .watermark w => w.name
  | .window r => r.windowName
  | .average r => r.averageName

variable {s} {s' : Setup} {t : Task} {u v : StoreUse} {name : String}

theorem useKey_eq (s : Setup) (u : StoreUse) :
    s.useKey u = storeKey s.config.namespaceName (s.useName u) := by
  cases u <;> rfl

theorem exists_use_of_mem_owned {key : String} (h : key ∈ s.owned t) : ∃ u, key = s.useKey u := by
  cases t with
  | maturity =>
    obtain rfl | rfl : key = s.key .head ∨ key = s.key .scanned := by simpa [owned] using h
    · exact ⟨.watermark .head, rfl⟩
    · exact ⟨.watermark .scanned, rfl⟩
  | batch r =>
    obtain rfl | rfl | rfl : key = s.key r.batch ∨ key = s.key r.ceiling ∨
        key = (s.estimator r).averageKey := by simpa [owned] using h
    · exact ⟨.watermark r.batch, rfl⟩
    · exact ⟨.watermark r.ceiling, rfl⟩
    · exact ⟨.average r, rfl⟩
  | feed f => exact ⟨.watermark f.watermark, List.mem_singleton.mp h⟩

theorem exists_use_of_asks {c : StoreCall} (h : s.asks t (.store c)) : ∃ u, c.key = s.useKey u := by
  have listed : ∀ {key : String}, key ∈ s.windows t → ∃ u, key = s.useKey u := fun mem => by
    cases t with
    | batch r => exact ⟨.window r, List.mem_singleton.mp mem⟩
    | _ => cases mem
  cases c with
  | getInt key => exact exists_use_of_mem_owned h
  | setInt key value => exact exists_use_of_mem_owned h
  | push key timestamp => exact listed h
  | popOldest key => exact listed h
  | _ => exact h.elim

theorem keys_of_tick (s : Setup) (t : Task) : (s.tick t).run.Within
    (fun r => ∀ c, r = .store c → ∃ u, c.key = s.useKey u) (s.loops t) := by
  have sweep : (s.sweep t).run.Within (fun r => ∀ c, r = .store c → ∃ u, c.key = s.useKey u)
      (s.loops t) := (sweeps_sweep t).mono fun _ asks c call => exists_use_of_asks (call ▸ asks)
  have lock : ∀ c : StoreCall, c.key = s.lockKey t →
      ∀ c', Request.store c = .store c' → ∃ u, c'.key = s.useKey u := by
    rintro c key _ ⟨⟩
    exact ⟨.lock t, key⟩
  rw [run_tick_eq]
  refine ⟨nofun, fun token => ⟨lock _ rfl, fun taken => ?_⟩⟩
  rcases taken with e | _ | _
  · trivial
  · trivial
  · exact ⟨nofun, fun _ => Program.within_bind sweep fun _ =>
      ⟨nofun, fun _ => ⟨lock _ rfl, fun _ => trivial⟩⟩⟩

theorem useName_of_fixed (h : u.fixedName? = some name) : s.useName u = name := by
  cases u <;> simp_all [StoreUse.fixedName?, useName]

theorem exists_lock_of_colon (h : ':' ∈ (s.useName u).toList) : ∃ t, u = .lock t := by
  have plain : ∀ name ∈ StoreUse.fixedNames, ':' ∉ name.toList := by decide
  obtain lock | ⟨name, listed, fixed⟩ := u.lock_or_fixed
  · exact lock
  · rw [useName_of_fixed fixed] at h
    exact absurd h (plain name listed)

theorem useName_injective (valid : s.config.validate = .ok ())
    (apart : ∀ t, s.lockName t ∉ StoreUse.fixedNames) (h : s.useName u = s.useName v) : u = v := by
  obtain ⟨t, rfl⟩ | ⟨name, listed, hu⟩ := u.lock_or_fixed
  · obtain ⟨t', rfl⟩ | ⟨name, listed, hv⟩ := v.lock_or_fixed
    · exact congrArg StoreUse.lock (lockName_injective valid h)
    · rw [← useName_of_fixed hv, ← h] at listed
      exact absurd listed (apart t)
  · obtain ⟨t, rfl⟩ | ⟨name', -, hv⟩ := v.lock_or_fixed
    · rw [← useName_of_fixed hu, h] at listed
      exact absurd listed (apart t)
    · rw [useName_of_fixed hu, useName_of_fixed hv] at h
      exact StoreUse.fixedName?_injective hu (h ▸ hv)

theorem nodup_useKeys (valid : s.config.validate = .ok ()) :
    (StoreUse.all.map s.useKey).Nodup ↔ ∀ t, s.lockName t ∉ StoreUse.fixedNames := by
  rw [List.nodup_map_iff_inj_on StoreUse.nodup_all]
  constructor
  · intro distinct t clash
    obtain ⟨u, -, fixed⟩ := List.mem_filterMap.mp clash
    have same : s.useKey (.lock t) = s.useKey u := by
      rw [useKey_eq, useKey_eq, useName_of_fixed fixed]
      rfl
    cases distinct _ (StoreUse.mem_all _) _ u.mem_all same
    cases fixed
  · intro apart u _ v _ same
    rw [useKey_eq, useKey_eq] at same
    exact useName_injective valid apart (storeKey_injective same)

/-- The other namespace continues that of `s`, and a lock of `s` is called like a key in it, as seen
from the namespace of `s`. -/
def ReachesInto (s s' : Setup) : Prop :=
  ∃ rest t u, keyPrefix s'.config.namespaceName = keyPrefix s.config.namespaceName ++ rest ∧
    s.lockName t = rest ++ s'.useName u

theorem exists_useKey_eq_iff (other : s.config.namespaceName ≠ s'.config.namespaceName) :
    (∃ u v, s.useKey u = s'.useKey v) ↔ s.ReachesInto s' ∨ s'.ReachesInto s := by
  simp only [useKey_eq, storeKey_eq, keyPrefix_append_eq_iff]
  constructor
  · rintro ⟨u, v, ⟨rest, longer, name⟩ | ⟨rest, longer, name⟩⟩
    · obtain ⟨t, rfl⟩ := exists_lock_of_colon (s := s) (u := u) (by
        rw [name, String.toList_append]
        exact List.mem_append_left _ (colon_mem_of_keyPrefix other longer))
      exact .inl ⟨rest, t, v, longer, name⟩
    · obtain ⟨t, rfl⟩ := exists_lock_of_colon (s := s') (u := v) (by
        rw [name, String.toList_append]
        exact List.mem_append_left _ (colon_mem_of_keyPrefix other.symm longer))
      exact .inr ⟨rest, t, u, longer, name⟩
  · rintro (⟨rest, t, u, longer, name⟩ | ⟨rest, t, u, longer, name⟩)
    · exact ⟨.lock t, u, .inl ⟨rest, longer, name⟩⟩
    · exact ⟨u, .lock t, .inr ⟨rest, longer, name⟩⟩

/-- The seventeen keys of valid settings are distinct if and only if no lock is called like a number
or a list. They are apart from those under another namespace if and only if neither side reaches
into the other, which takes a lock with a colon in its name. -/
theorem store_keys_apart_iff (valid : s.config.validate = .ok ()) :
    ((StoreUse.all.map s.useKey).Nodup ↔ ∀ t, s.lockName t ∉ StoreUse.fixedNames) ∧
      ∀ s' : Setup, s.config.namespaceName ≠ s'.config.namespaceName →
        (((∀ u v, s.useKey u ≠ s'.useKey v) ↔ ¬ s.ReachesInto s' ∧ ¬ s'.ReachesInto s) ∧
          (s.ReachesInto s' → ∃ t, ':' ∈ (s.lockName t).toList)) := by
  refine ⟨nodup_useKeys valid, fun s' other => ⟨?_, ?_⟩⟩
  · rw [← not_or, ← exists_useKey_eq_iff other]
    simp
  · rintro ⟨rest, t, u, longer, name⟩
    refine ⟨t, ?_⟩
    rw [name, String.toList_append]
    exact List.mem_append_left _ (colon_mem_of_keyPrefix other longer)

def lockNamed (ns name : String) : Setup :=
  ⟨{ namespaceName := ns, maturity := { lockKey := name } }, true⟩

theorem store_keys_apart_namedLocks :
    (lockNamed "" "x").config.validate = .ok () ∧
      (StoreUse.all.map (lockNamed "" "x").useKey).Nodup ∧
        ∀ u v, (lockNamed "" "x").useKey u ≠ (lockNamed "a" "x").useKey v := by
  have valid : (lockNamed "" "x").config.validate = .ok () := by decide
  have valid' : (lockNamed "a" "x").config.validate = .ok () := by decide
  have names : ∀ t ∈ Task.all, (lockNamed "" "x").lockName t ∉ StoreUse.fixedNames := by decide
  have plain : ∀ t ∈ Task.all, ':' ∉ ((lockNamed "" "x").lockName t).toList := by decide
  have plain' : ∀ t ∈ Task.all, ':' ∉ ((lockNamed "a" "x").lockName t).toList := by decide
  obtain ⟨distinct, apart⟩ := store_keys_apart_iff valid
  obtain ⟨disjoint, forth⟩ := apart (lockNamed "a" "x") (by decide)
  have back := ((store_keys_apart_iff valid').2 (lockNamed "" "x") (by decide)).2
  refine ⟨valid, distinct.mpr fun t => names t t.mem_all, disjoint.mpr ⟨fun h => ?_, fun h => ?_⟩⟩
  · obtain ⟨t, colon⟩ := forth h
    exact plain t t.mem_all colon
  · obtain ⟨t, colon⟩ := back h
    exact plain' t t.mem_all colon

/-- Validation accepts a lock that is called like a watermark, and a lock with the name of another
notifier's watermark under that one's namespace. -/
theorem not_store_keys_apart :
    ((lockNamed "" "bridge_l1_block_num").config.validate = .ok () ∧
        ¬ (StoreUse.all.map (lockNamed "" "bridge_l1_block_num").useKey).Nodup) ∧
      (lockNamed "" "a:bridge_l1_block_num").config.validate = .ok () ∧
        (lockNamed "a" "x").config.validate = .ok () ∧
          (lockNamed "" "a:bridge_l1_block_num").useKey (.lock .maturity) =
            (lockNamed "a" "x").useKey (.watermark .head) := by
  decide

end Setup
end BridgeNotifier
