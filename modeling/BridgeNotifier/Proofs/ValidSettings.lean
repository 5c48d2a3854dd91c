import BridgeNotifier.Config.Load
set_option autoImplicit false

namespace BridgeNotifier.Config

theorem nodup_of_firstShared {keys : List String} (h : firstShared keys = none) : keys.Nodup := by
  induction keys with
  | nil => exact .nil
  | cons key keys ih =>
    rw [firstShared] at h
    split at h
    · cases h
    · rename_i fresh
      exact List.nodup_cons.2 ⟨by simpa using fresh, ih h⟩

theorem ok_of_bind {ε α β : Type} {x : Except ε α} {f : α → Except ε β} {b : β}
    (h : (x >>= f) = .ok b) : ∃ a, f a = .ok b := by
  cases x with
  | ok a => exact ⟨a, h⟩
  | error e => cases h

variable {c : Config}

theorem lastChecks_of_validate (valid : c.validate = .ok ()) :
    firstShared c.lockKeys = none ∧ ∃ table, ChainIds.ofLists c.chainIds = .ok table := by
  iterate 7 obtain ⟨-, valid⟩ := ok_of_bind valid
  cases shared : firstShared c.lockKeys with
  | some key =>
    rw [shared] at valid
    cases valid
  | none =>
    rw [shared] at valid
    cases built : ChainIds.ofLists c.chainIds with
    | ok table => exact ⟨rfl, table, rfl⟩
    | error p =>
      rw [built] at valid
      cases valid

theorem lockKeys_nodup (valid : c.validate = .ok ()) : c.lockKeys.Nodup :=
  nodup_of_firstShared (lastChecks_of_validate valid).1

theorem exists_table (valid : c.validate = .ok ()) :
    ∃ table, ChainIds.ofLists c.chainIds = .ok table :=
  (lastChecks_of_validate valid).2

section

variable (yaml : String → Option Form) (env : Placeholder.Environment)

/-- The settings that a text stands for, its placeholders filled in. -/
def parsed? (text : String) : Option Config :=
  let text := Placeholder.substitute env text
  if Text.isBlankText text then some {} else (yaml text).bind Config.ofForm?

def content? (file : Option ByteArray) : Option String :=
  file.bind String.fromUTF8?

/-- The file can be read, parses to the settings and passes validation. -/
structure Accepted (file : Option ByteArray) (c : Config) : Prop where
  parsed : (content? file).bind (parsed? yaml env) = some c
  valid : c.validate = .ok ()

inductive Refused (path : String) (file : Option ByteArray) : LoadError → Prop where
  | unreadable (unread : content? file = none) : Refused path file (.unreadable path)
  | malformed {text : String} (read : content? file = some text)
    (unparsed : parsed? yaml env text = none) : Refused path file .malformed
  | invalid {settings : Config} {p : Problem}
    (parsed : (content? file).bind (parsed? yaml env) = some settings)
    (invalid : settings.validate = .error p) : Refused path file (.invalid p)

theorem content?_toUTF8 (text : String) : content? (some text.toUTF8) = some text :=
  dif_pos text.isValidUTF8

theorem ofYaml_eq (text : String) :
    ofYaml yaml env text = match parsed? yaml env text with
      | none => .error .malformed
      | some c => validated c := by
  rw [ofYaml, parsed?]
  split <;> rfl

theorem ofFile_eq (path : String) (file : Option ByteArray) :
    ofFile yaml env path file = match content? file with
      | none => .error (.unreadable path)
      | some text => ofYaml yaml env text := rfl

theorem validated_eq (c : Config) : validated c = match c.validate with
    | .error p => .error (.invalid p)
    | .ok () => .ok c := rfl

theorem accepted_or_refused (path : String) (file : Option ByteArray) :
    (∃ c, Accepted yaml env file c) ∨ ∃ e, Refused yaml env path file e := by
  cases read : content? file with
  | none => exact .inr ⟨_, .unreadable read⟩
  | some text =>
    cases parsed : parsed? yaml env text with
    | none => exact .inr ⟨_, .malformed read parsed⟩
    | some c =>
      have parsed' : (content? file).bind (parsed? yaml env) = some c := by rw [read]; exact parsed
      cases valid : c.validate with
      | error p => exact .inr ⟨_, .invalid parsed' valid⟩
      | ok u => exact .inl ⟨c, parsed', valid⟩

end

variable {yaml : String → Option Form} {env : Placeholder.Environment} {path : String}
  {file : Option ByteArray} {e : LoadError}

theorem Accepted.ofFile_eq (accepted : Accepted yaml env file c) (path : String) :
    ofFile yaml env path file = .ok c := by
  obtain ⟨parsed, valid⟩ := accepted
  obtain ⟨text, read, parsed⟩ := Option.bind_eq_some_iff.1 parsed
  simp only [Config.ofFile_eq, read, ofYaml_eq, parsed, validated_eq, valid]

theorem Refused.ofFile_eq (refused : Refused yaml env path file e) :
    ofFile yaml env path file = .error e := by
  cases refused with
  | unreadable unread => simp only [Config.ofFile_eq, unread]
  | malformed read unparsed => simp only [Config.ofFile_eq, read, ofYaml_eq, unparsed]
  | invalid parsed invalid =>
    obtain ⟨text, read, parsed⟩ := Option.bind_eq_some_iff.1 parsed
    simp only [Config.ofFile_eq, read, ofYaml_eq, parsed, validated_eq, invalid]

theorem Accepted.not_refused (accepted : Accepted yaml env file c) (path : String) :
    ¬ Refused yaml env path file e := by
  intro refused
  cases (accepted.ofFile_eq path).symm.trans refused.ofFile_eq

end BridgeNotifier.Config
