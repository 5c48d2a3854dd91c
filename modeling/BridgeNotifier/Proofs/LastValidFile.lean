import BridgeNotifier.Config.Document
import BridgeNotifier.Proofs.ChainIdTables
import BridgeNotifier.Proofs.ValidSettings
import BridgeNotifier.Reload
import BridgeNotifier.Simulation.World
set_option autoImplicit false

namespace BridgeNotifier

namespace LiveValues

variable {v : LiveValues} {c : Config} {table : ChainIds} {depth : UInt64}

structure Of (c : Config) (v : LiveValues) : Prop where
  depth : v.depth.value = c.maturity.confirmations
  distinct : v.chainIds.value.Distinct
  table : ∃ table, ChainIds.ofLists c.chainIds = .ok table ∧ v.chainIds.value.SameMaps table

/-- One of the two values is another one; tables count as maps. -/
def Differ (v w : LiveValues) : Prop :=
  v.depth.value ≠ w.depth.value ∨ ¬ v.chainIds.value.SameMaps w.chainIds.value

theorem not_differ_self (v : LiveValues) : ¬ v.Differ v := by
  rintro (depth | table)
  · exact depth rfl
  · exact table (.refl _)

theorem of_ofConfig (h : ofConfig c = .ok v) : v.Of c := by
  cases built : ChainIds.ofLists c.chainIds with
  | error p =>
    rw [ofConfig, built] at h
    cases h
  | ok table =>
    rw [ofConfig, built] at h
    cases h
    exact ⟨rfl, ChainIds.distinct_of_ofLists built, table, built, .refl table⟩

theorem publish_depth (v : LiveValues) (depth : UInt64) (table : ChainIds) :
    (v.publish depth table).2.depth.value = depth := by
  simp only [publish, Live.publish]
  split
  · rename_i same
    exact eq_of_beq same
  · rfl

theorem publish_table (hv : v.chainIds.value.Distinct) (ht : table.Distinct) :
    (v.publish depth table).2.chainIds.value.Distinct ∧
      (v.publish depth table).2.chainIds.value.SameMaps table := by
  simp only [publish, Live.publish]
  split
  · -- an equal table is not put in the place of the one before
    rename_i same
    exact ⟨hv, (hv.same_iff ht).1 same⟩
  · exact ⟨ht, .refl table⟩

theorem publish_changed_iff (hv : v.chainIds.value.Distinct) (ht : table.Distinct) :
    (v.publish depth table).1 = true ↔ v.Differ (v.publish depth table).2 := by
  rw [Differ, publish_depth, (publish_table hv ht).2.iff_right, ← hv.same_iff ht]
  simp only [publish, Live.publish_fst, Bool.or_eq_true, Bool.not_eq_true', beq_eq_false_iff_ne,
    Bool.not_eq_true]

variable {yaml : String → Option Form} {env : Placeholder.Environment} {path : String}
  {file : Option ByteArray}

theorem reload_of_refused {e : Config.LoadError} (refused : Config.Refused yaml env path file e) :
    v.reload yaml env path file = (.error e.toError, v) := by
  rw [reload, refused.ofFile_eq]

theorem reload_of_accepted (accepted : Config.Accepted yaml env file c)
    (built : ChainIds.ofLists c.chainIds = .ok table) :
    v.reload yaml env path file = (.ok (v.publish c.maturity.confirmations table).1,
      (v.publish c.maturity.confirmations table).2) := by
  rw [reload, accepted.ofFile_eq]
  simp only [built]

theorem of_reload (hv : v.chainIds.value.Distinct) (accepted : Config.Accepted yaml env file c) :
    (v.reload yaml env path file).2.Of c := by
  obtain ⟨table, built⟩ := Config.exists_table accepted.valid
  have ht := ChainIds.distinct_of_ofLists built
  rw [reload_of_accepted accepted built]
  obtain ⟨distinct, same⟩ := publish_table hv ht
  exact ⟨publish_depth .., distinct, table, built, same⟩

theorem reload_error_iff {err : Error} : (v.reload yaml env path file).1 = .error err ↔
    ∃ e, Config.Refused yaml env path file e ∧ e.toError = err := by
  obtain ⟨c, accepted⟩ | ⟨e, refused⟩ := Config.accepted_or_refused yaml env path file
  · obtain ⟨table, built⟩ := Config.exists_table accepted.valid
    rw [reload_of_accepted accepted built]
    simp only [reduceCtorEq, false_iff, not_exists, not_and]
    exact fun e refused => absurd refused (accepted.not_refused path)
  · rw [reload_of_refused refused]
    constructor
    · intro h
      exact ⟨e, refused, Except.error.inj h⟩
    · rintro ⟨e', refused', rfl⟩
      have same := refused.ofFile_eq.symm.trans refused'.ofFile_eq
      rw [Except.error.inj same]

theorem reload_kept {err : Error} (failed : (v.reload yaml env path file).1 = .error err) :
    (v.reload yaml env path file).2 = v := by
  obtain ⟨e, refused, -⟩ := reload_error_iff.1 failed
  rw [reload_of_refused refused]

theorem reload_changed_iff (hv : v.chainIds.value.Distinct) :
    (v.reload yaml env path file).1 = .ok true ↔ v.Differ (v.reload yaml env path file).2 := by
  obtain ⟨c, accepted⟩ | ⟨e, refused⟩ := Config.accepted_or_refused yaml env path file
  · obtain ⟨table, built⟩ := Config.exists_table accepted.valid
    rw [reload_of_accepted accepted built, Except.ok.injEq,
      publish_changed_iff hv (ChainIds.distinct_of_ofLists built)]
  · rw [reload_of_refused refused]
    simp [not_differ_self]

end LiveValues

namespace Simulation

inductive Change where
  | write (bytes : ByteArray)
  | remove
  | setEnvironment (env : Placeholder.Environment)
  | reload

structure Reading where
  env : Placeholder.Environment
  file : Option ByteArray

namespace FileSession

def opened (env : Placeholder.Environment) (path : String) (values : LiveValues)
    (file : Option ByteArray) : FileSession :=
  ⟨env, path, values, file, 0, none⟩

section

variable (yaml : String → Option Form)

theorem run_reload (s : FileSession) :
    s.run yaml .reload = (some (s.values.reload yaml s.env s.path s.file).1,
      { s with values := (s.values.reload yaml s.env s.path s.file).2 }) := rfl

def after (s : FileSession) : Change → FileSession
  | .write bytes => (s.run yaml (.write (some bytes))).2
  | .remove => (s.run yaml (.write none)).2
  | .setEnvironment env => { s with env := env }
  | .reload => (s.run yaml .reload).2

def afterAll (s : FileSession) (changes : List Change) : FileSession :=
  changes.foldl (after yaml) s

def readings (s : FileSession) : List Change → List Reading
  | [] => []
  | .reload :: changes => ⟨s.env, s.file⟩ :: (s.after yaml .reload).readings changes
  | change :: changes => (s.after yaml change).readings changes

/-- The settings read last of all that were accepted, or the initial ones if none were. -/
inductive LastAccepted (initial : Config) : List Reading → Config → Prop where
  | start : LastAccepted initial [] initial
  | accepted {readings : List Reading} {r : Reading} {c : Config}
    (h : Config.Accepted yaml r.env r.file c) : LastAccepted initial (readings ++ [r]) c
  | refused {readings : List Reading} {r : Reading} {c : Config}
    (last : LastAccepted initial readings c) (h : ∀ d, ¬ Config.Accepted yaml r.env r.file d) :
    LastAccepted initial (readings ++ [r]) c

def Follows (initial : Config) (found : List Reading) (v : LiveValues) : Prop :=
  ∃ c, LastAccepted yaml initial found c ∧ v.Of c

end

variable {yaml : String → Option Form} {s : FileSession} {initial : Config}
  {found : List Reading} {changes : List Change}

theorem follows_reload (h : Follows yaml initial found s.values) :
    Follows yaml initial (found ++ [⟨s.env, s.file⟩]) (s.after yaml .reload).values := by
  obtain ⟨c, last, of⟩ := h
  obtain ⟨d, accepted⟩ | ⟨e, refused⟩ := Config.accepted_or_refused yaml s.env s.path s.file
  · exact ⟨d, .accepted accepted, LiveValues.of_reload of.distinct accepted⟩
  · refine ⟨c, last.refused fun d accepted => accepted.not_refused s.path refused, ?_⟩
    change (s.values.reload yaml s.env s.path s.file).2.Of c
    rwa [LiveValues.reload_of_refused refused]

theorem follows_afterAll (h : Follows yaml initial found s.values) :
    Follows yaml initial (found ++ s.readings yaml changes) (s.afterAll yaml changes).values := by
  induction changes generalizing s found with
  | nil => rwa [readings, List.append_nil]
  | cons change changes ih =>
    cases change with
    | reload =>
      have later := ih (follows_reload h)
      rwa [List.append_assoc] at later
    | write bytes => exact ih (s := s.after yaml (.write bytes)) h
    | remove => exact ih (s := s.after yaml .remove) h
    | setEnvironment env => exact ih (s := s.after yaml (.setEnvironment env)) h

/-- Whatever happened to the file and to the environment, every reader gets the values of the
settings accepted last. Another call fails exactly if the file is refused as it is now, which
changes neither value, and tells of a change exactly if there is one. -/
theorem values_follow_last_accepted {values : LiveValues}
    (start : LiveValues.ofConfig initial = .ok values) (yaml : String → Option Form)
    (env : Placeholder.Environment) (path : String) (file : Option ByteArray)
    (changes : List Change) :
    let opened := opened env path values file
    let s := opened.afterAll yaml changes
    (∃ c table, LastAccepted yaml initial (opened.readings yaml changes) c ∧
      ChainIds.ofLists c.chainIds = .ok table ∧
        ∀ w : World, w.depth = s.values.depth → w.chainIds = s.values.chainIds →
          (w.reply .depth).1 = c.maturity.confirmations ∧
            (w.reply .chainIds).1.SameMaps table) ∧
    (∀ err, (s.run yaml .reload).1 = some (.error err) ↔
      ∃ e, Config.Refused yaml s.env s.path s.file e ∧ e.toError = err) ∧
    (∀ err, (s.run yaml .reload).1 = some (.error err) →
      (s.run yaml .reload).2.values = s.values) ∧
    ((s.run yaml .reload).1 = some (.ok true) ↔
      s.values.Differ (s.run yaml .reload).2.values) := by
  intro opened s
  have follows : Follows yaml initial (opened.readings yaml changes) s.values :=
    follows_afterAll (show Follows yaml initial [] opened.values from
      ⟨initial, .start, LiveValues.of_ofConfig start⟩)
  obtain ⟨c, last, of⟩ := follows
  refine ⟨?_, fun err => ?_, fun err failed => ?_, ?_⟩
  · obtain ⟨table, built, same⟩ := of.table
    refine ⟨c, table, last, built, fun w depth chainIds => ⟨?_, ?_⟩⟩
    · change w.depth.value = _
      rw [depth, of.depth]
    · change w.chainIds.value.SameMaps table
      rwa [chainIds]
  · rw [run_reload, Option.some.injEq]
    exact LiveValues.reload_error_iff
  · exact LiveValues.reload_kept (Option.some.inj failed)
  · rw [run_reload, Option.some.injEq]
    exact LiveValues.reload_changed_iff of.distinct

def shallowValues : LiveValues :=
  ⟨⟨7⟩, ⟨⟨[(0, 1), (1, 196)], []⟩⟩⟩

def noVariables : Placeholder.Environment := fun _ => none

def deepText : String := "l1_sweep:\n  confirmations: 30\n"

def pagelessText : String := "page_size: 0\n"

def tornText : String := "l1_sweep:\n  confirmations: [\n"

theorem accepted_deep : Config.Accepted Form.ofYaml? noVariables (some deepText.toUTF8)
    { maturity := { confirmations := 30 } } where
  parsed := by
    rw [Config.content?_toUTF8, Option.bind_some]
    have parsed : Config.parsed? Form.ofYaml? noVariables deepText =
        some { maturity := { confirmations := 30 } } := by decide +kernel
    exact parsed
  valid := rfl

theorem refused_pageless : Config.Refused Form.ofYaml? noVariables "push.yaml"
    (some pagelessText.toUTF8) (.invalid (.mustBePositive "page_size")) := by
  have parsed : Config.parsed? Form.ofYaml? noVariables pagelessText =
      some { pageSize := 0 } := by decide +kernel
  have read : (Config.content? (some pagelessText.toUTF8)).bind
      (Config.parsed? Form.ofYaml? noVariables) = some { pageSize := 0 } := by
    rw [Config.content?_toUTF8, Option.bind_some, parsed]
  exact .invalid read rfl

theorem refused_torn : Config.Refused Form.ofYaml? noVariables "push.yaml"
    (some tornText.toUTF8) .malformed :=
  .malformed (Config.content?_toUTF8 _) (by decide +kernel)

/-- A file that is accepted and then spoilt twice, once by a page size of zero and once in the middle
of a list. -/
theorem values_follow_spoiltFile :
    LiveValues.ofConfig { maturity := { confirmations := 7 } } = .ok shallowValues ∧
    let opened := opened noVariables "push.yaml" shallowValues none
    let deep := opened.afterAll Form.ofYaml? [.write deepText.toUTF8]
    let pageless := (deep.after Form.ofYaml? .reload).after Form.ofYaml? (.write pagelessText.toUTF8)
    let torn := (pageless.after Form.ofYaml? .reload).after Form.ofYaml? (.write tornText.toUTF8)
    (deep.run Form.ofYaml? .reload).1 = some (.ok true) ∧
      (deep.run Form.ofYaml? .reload).2.values.depth.value = 30 ∧
      (pageless.run Form.ofYaml? .reload).1 =
        some (.error ⟨.internal, "Config error: page_size must be > 0"⟩) ∧
      (torn.run Form.ofYaml? .reload).1 =
        some (.error ⟨.internal, "Failed to parse push config YAML"⟩) ∧
      (torn.run Form.ofYaml? .reload).2.values = (deep.run Form.ofYaml? .reload).2.values := by
  have start : LiveValues.ofConfig { maturity := { confirmations := 7 } } = .ok shallowValues := rfl
  have follow := values_follow_last_accepted start Form.ofYaml? noVariables "push.yaml" none
  obtain ⟨-, -, -, changed⟩ := follow [.write deepText.toUTF8]
  obtain ⟨-, invalid, kept, -⟩ :=
    follow [.write deepText.toUTF8, .reload, .write pagelessText.toUTF8]
  obtain ⟨-, malformed, kept', -⟩ := follow
    [.write deepText.toUTF8, .reload, .write pagelessText.toUTF8, .reload, .write tornText.toUTF8]
  have read : (shallowValues.reload Form.ofYaml? noVariables "push.yaml"
      (some deepText.toUTF8)).2.Of { maturity := { confirmations := 30 } } :=
    LiveValues.of_reload (LiveValues.of_ofConfig start).distinct accepted_deep
  have pageless := (invalid _).2 ⟨_, refused_pageless, rfl⟩
  have torn := (malformed _).2 ⟨_, refused_torn, rfl⟩
  refine ⟨start, changed.2 (.inl ?_), read.depth, pageless, torn, ?_⟩
  · intro same
    exact absurd (same.trans read.depth) (by decide)
  · exact (kept' _ torn).trans (kept _ pageless)

end FileSession
end Simulation
end BridgeNotifier
