import BridgeNotifier.Config.Placeholder
import Mathlib.Computability.RegularExpressions
import Mathlib.Data.List.TakeWhile
set_option autoImplicit false

/-!
# What the environment does to a text

Substitution is compared with two descriptions of it that do not share its way of reading. One is
the replacement of the matches of a regular expression, leftmost first. The other is a scanner
with three rules. Both agree with it on every text, so a reference can neither overlap another nor
be hidden by a false start, and what is inserted is never read.
-/
namespace BridgeNotifier.Placeholder

def range (first last : Char) : List Char :=
  (List.range' first.toNat (last.toNat - first.toNat + 1)).map Char.ofNat

def nameStarts : List Char :=
  range 'A' 'Z' ++ range 'a' 'z' ++ ['_']

def nameParts : List Char :=
  range 'A' 'Z' ++ range 'a' 'z' ++ range '0' '9' ++ ['_']

def IsName (name : List Char) : Prop :=
  ∃ c cs, name = c :: cs ∧ c ∈ nameStarts ∧ ∀ d ∈ cs, d ∈ nameParts

theorem mem_range_iff {first last c : Char} (le : first.toNat ≤ last.toNat)
    (valid : last.toNat < 0xD800) : c ∈ range first last ↔ first ≤ c ∧ c ≤ last := by
  have kept : ∀ n, n ≤ last.toNat → (Char.ofNat n).toNat = n := fun n small =>
    have isValid : n.isValidChar := .inl (Nat.lt_of_le_of_lt small valid)
    congrArg Char.toNat (dif_pos isValid)
  have counted : c ∈ range first last ↔ first.toNat ≤ c.toNat ∧ c.toNat ≤ last.toNat := by
    simp only [range, List.mem_map, List.mem_range'_1]
    constructor
    · rintro ⟨n, ⟨low, high⟩, rfl⟩
      rw [kept n (by omega)]
      omega
    · rintro ⟨low, high⟩
      exact ⟨c.toNat, by omega, c.ofNat_toNat⟩
  exact counted

theorem isAlpha_iff {c : Char} :
    c.isAlpha = true ↔ ('A' ≤ c ∧ c ≤ 'Z') ∨ ('a' ≤ c ∧ c ≤ 'z') := by
  have upper : c.isUpper = true ↔ 'A' ≤ c ∧ c ≤ 'Z' := decide_eq_true_iff
  have lower : c.isLower = true ↔ 'a' ≤ c ∧ c ≤ 'z' :=
    Bool.and_eq_true_iff.trans (and_congr decide_eq_true_iff decide_eq_true_iff)
  rw [← upper, ← lower]
  exact Bool.or_eq_true_iff

theorem isDigit_iff {c : Char} : c.isDigit = true ↔ '0' ≤ c ∧ c ≤ '9' :=
  Bool.and_eq_true_iff.trans (and_congr decide_eq_true_iff decide_eq_true_iff)

theorem isNameStart_iff {c : Char} : isNameStart c = true ↔ c ∈ nameStarts := by
  simp only [nameStarts, List.mem_append, List.mem_singleton]
  rw [mem_range_iff (by decide) (by decide), mem_range_iff (by decide) (by decide)]
  rw [isNameStart, Bool.or_eq_true_iff, isAlpha_iff, beq_iff_eq]

theorem isNamePart_iff {c : Char} : isNamePart c = true ↔ c ∈ nameParts := by
  simp only [nameParts, List.mem_append, List.mem_singleton]
  rw [mem_range_iff (by decide) (by decide), mem_range_iff (by decide) (by decide),
    mem_range_iff (by decide) (by decide)]
  rw [isNamePart, Char.isAlphanum, Bool.or_eq_true_iff, Bool.or_eq_true_iff, isAlpha_iff,
    isDigit_iff, beq_iff_eq]

theorem dropWhile_isNamePart {ps : List Char} (parts : ∀ d ∈ ps, d ∈ nameParts)
    (rest : List Char) :
    (ps ++ '\x7d' :: rest).takeWhile isNamePart = ps ∧
      (ps ++ '\x7d' :: rest).dropWhile isNamePart = '\x7d' :: rest := by
  have taken : ∀ d ∈ ps, isNamePart d = true := fun d h => isNamePart_iff.mpr (parts d h)
  have closes : isNamePart '\x7d' = false := by decide
  rw [List.takeWhile_append_of_pos taken, List.dropWhile_append_of_pos taken]
  simp [closes]

theorem name?_eq_some_iff {cs name rest : List Char} :
    name? cs = some (name, rest) ↔ IsName name ∧ cs = name ++ '\x7d' :: rest := by
  constructor
  · intro h
    cases cs with
    | nil => cases h
    | cons c cs =>
      obtain ⟨start, h⟩ := Option.ite_none_right_eq_some.mp h
      split at h
      case h_1 after closed =>
        cases h
        have parts : ∀ d ∈ cs.takeWhile isNamePart, d ∈ nameParts := fun d part =>
          isNamePart_iff.mp (List.mem_takeWhile_imp part)
        refine ⟨⟨c, _, rfl, isNameStart_iff.mp start, parts⟩, ?_⟩
        rw [List.cons_append, ← closed, List.takeWhile_append_dropWhile]
      case h_2 => cases h
  · rintro ⟨⟨c, cs, rfl, start, parts⟩, rfl⟩
    obtain ⟨taken, left⟩ := dropWhile_isNamePart parts rest
    simp [name?, isNameStart_iff.mpr start, taken, left]

theorem reference?_eq_some_iff {cs name rest : List Char} :
    reference? cs = some (name, rest) ↔ IsName name ∧ cs = written name ++ rest := by
  unfold reference?
  split
  case h_1 cs => simp [name?_eq_some_iff, written]
  case h_2 other =>
    refine ⟨nofun, fun h => ?_⟩
    exact absurd (by simpa [written] using h.2) (other (name ++ '\x7d' :: rest))

theorem reference?_eq_none_iff {cs : List Char} :
    reference? cs = none ↔ ∀ name, IsName name → ¬ written name <+: cs := by
  rw [Option.eq_none_iff_forall_ne_some]
  constructor
  · rintro none name known ⟨rest, rfl⟩
    exact none (name, rest) (reference?_eq_some_iff.mpr ⟨known, rfl⟩)
  · rintro none ⟨name, rest⟩ h
    obtain ⟨known, rfl⟩ := reference?_eq_some_iff.mp h
    exact none name known ⟨rest, rfl⟩

variable {env : Environment}

theorem substituteChars_written {name : List Char} (known : IsName name) (rest : List Char) :
    substituteChars env (written name ++ rest) = valueOf env name ++ substituteChars env rest := by
  have found : reference? (written name ++ rest) = some (name, rest) :=
    reference?_eq_some_iff.mpr ⟨known, rfl⟩
  simp only [written, List.cons_append] at found ⊢
  rw [substituteChars]
  split
  case h_1 h =>
    cases found.symm.trans h
    rfl
  case h_2 none => cases found.symm.trans none

theorem substituteChars_cons {c : Char} {cs : List Char} (none : reference? (c :: cs) = none) :
    substituteChars env (c :: cs) = c :: substituteChars env cs := by
  rw [substituteChars]
  split
  case h_1 found => simp [none] at found
  case h_2 => rfl

/-- A scanner looks for a reference where it stands. It emits the value and goes on behind the
reference, or copies one character. -/
inductive Scanned (env : Environment) : List Char → List Char → Prop where
  | done : Scanned env [] []
  | replace {name rest out : List Char} (known : IsName name) (after : Scanned env rest out) :
      Scanned env (written name ++ rest) (valueOf env name ++ out)
  | copy {c : Char} {cs out : List Char} (none : ∀ name, IsName name → ¬ written name <+: c :: cs)
      (after : Scanned env cs out) : Scanned env (c :: cs) (c :: out)

theorem scanned_iff {text out : List Char} :
    Scanned env text out ↔ out = substituteChars env text := by
  constructor
  · intro h
    induction h with
    | done => rw [substituteChars]
    | replace known _ ih => rw [substituteChars_written known, ih]
    | copy none _ ih => rw [substituteChars_cons (reference?_eq_none_iff.mpr none), ih]
  · rintro rfl
    induction text using substituteChars.induct with
    | case1 => rw [substituteChars]; exact .done
    | case2 c cs name rest found ih =>
      obtain ⟨known, text⟩ := reference?_eq_some_iff.mp found
      rw [text, substituteChars_written known]
      exact .replace known ih
    | case3 c cs none ih =>
      rw [substituteChars_cons none]
      exact .copy (reference?_eq_none_iff.mp none) ih

section Expression
open RegularExpression

def Begins (expression : RegularExpression Char) (text : List Char) : Prop :=
  ∃ found ∈ expression.matches', found <+: text

/-- The first match in the text is replaced, and then those behind it. No match begins before the
first one, and what replaces it is not searched again. -/
inductive Replaced (expression : RegularExpression Char) (value : List Char → List Char) :
    List Char → List Char → Prop where
  | kept {text : List Char} (none : ∀ rest, rest <:+ text → ¬ Begins expression rest) :
      Replaced expression value text text
  | next (before : List Char) {found after out : List Char} (matched : found ∈ expression.matches')
      (first : ∀ rest, rest ≠ [] → rest <:+ before → ¬ Begins expression (rest ++ found ++ after))
      (rest : Replaced expression value after out) :
      Replaced expression value (before ++ found ++ after) (before ++ value found ++ out)

def oneOf (cs : List Char) : RegularExpression Char :=
  (cs.map char).sum

def pattern : RegularExpression Char :=
  char '$' * char '{' * (oneOf nameStarts * star (oneOf nameParts)) * char '}'

def captured (found : List Char) : String :=
  String.ofList (found.drop 2).dropLast

def replacement (env : Environment) (found : List Char) : List Char :=
  match env (captured found) with
  | some value => value.toList
  | none => found

theorem mem_oneOf {cs word : List Char} : word ∈ (oneOf cs).matches' ↔ ∃ c ∈ cs, word = [c] := by
  induction cs with
  | nil => simp [oneOf]
  | cons c cs ih =>
    have single : word ∈ (char c).matches' ↔ word = [c] := Iff.rfl
    rw [oneOf, List.map_cons, List.sum_cons, matches'_add, Language.mem_add, ← oneOf, ih, single]
    simp

theorem mem_star_oneOf {cs word : List Char} :
    word ∈ (star (oneOf cs)).matches' ↔ ∀ c ∈ word, c ∈ cs := by
  constructor
  · intro h c member
    obtain ⟨words, rfl, all⟩ := Language.mem_kstar.mp h
    obtain ⟨word, known, member⟩ := List.mem_flatten.mp member
    obtain ⟨d, digit, rfl⟩ := mem_oneOf.mp (all word known)
    exact List.mem_singleton.mp member ▸ digit
  · intro all
    refine Language.mem_kstar.mpr ⟨word.map ([·]), ?_, fun single h => ?_⟩
    · rw [← List.flatMap_def, List.flatMap_singleton']
    · obtain ⟨c, member, rfl⟩ := List.mem_map.mp h
      exact mem_oneOf.mpr ⟨c, all c member, rfl⟩

theorem mem_pattern {found : List Char} :
    found ∈ pattern.matches' ↔ ∃ name, IsName name ∧ found = written name := by
  have name (word : List Char) :
      word ∈ (oneOf nameStarts * star (oneOf nameParts)).matches' ↔ IsName word := by
    rw [matches'_mul, Language.mem_mul]
    constructor
    · rintro ⟨first, leads, others, parts, rfl⟩
      obtain ⟨c, start, rfl⟩ := mem_oneOf.mp leads
      exact ⟨c, others, rfl, start, mem_star_oneOf.mp parts⟩
    · rintro ⟨c, others, rfl, start, parts⟩
      exact ⟨[c], mem_oneOf.mpr ⟨c, start, rfl⟩, others, mem_star_oneOf.mpr parts, rfl⟩
  constructor
  · rintro ⟨_, ⟨_, ⟨_, rfl, _, rfl, rfl⟩, word, known, rfl⟩, _, rfl, rfl⟩
    exact ⟨word, (name word).mp known, rfl⟩
  · rintro ⟨word, known, rfl⟩
    exact ⟨_, ⟨_, ⟨_, rfl, _, rfl, rfl⟩, word, (name word).mpr known, rfl⟩, _, rfl, rfl⟩

theorem not_begins_iff {text : List Char} : ¬ Begins pattern text ↔ reference? text = none := by
  rw [reference?_eq_none_iff]
  constructor
  · intro none name known leads
    exact none ⟨written name, mem_pattern.mpr ⟨name, known, rfl⟩, leads⟩
  · rintro none ⟨found, matched, leads⟩
    obtain ⟨name, known, rfl⟩ := mem_pattern.mp matched
    exact none name known leads

theorem captured_written (name : List Char) : captured (written name) = String.ofList name := by
  simp [captured, written]

theorem replacement_written {env : Environment} (name : List Char) :
    replacement env (written name) = valueOf env name := by
  cases value : env (String.ofList name) <;>
    simp [replacement, valueOf, captured_written, value]

theorem substituteChars_append_of_none {env : Environment} {before after : List Char}
    (none : ∀ rest, rest ≠ [] → rest <:+ before → ¬ Begins pattern (rest ++ after)) :
    substituteChars env (before ++ after) = before ++ substituteChars env after := by
  induction before with
  | nil => rfl
  | cons c cs ih =>
    have here := not_begins_iff.mp (none (c :: cs) (by simp) List.suffix_rfl)
    have behind := ih fun rest nonempty within =>
      none rest nonempty (within.trans (List.suffix_cons c cs))
    rw [List.cons_append] at here ⊢
    rw [substituteChars_cons here, behind, List.cons_append]

theorem Replaced.cons {env : Environment} {c : Char} {cs out : List Char}
    (none : ¬ Begins pattern (c :: cs)) (h : Replaced pattern (replacement env) cs out) :
    Replaced pattern (replacement env) (c :: cs) (c :: out) := by
  cases h with
  | kept others =>
    refine .kept fun rest within => ?_
    obtain rfl | within := List.suffix_cons_iff.mp within
    · exact none
    · exact others rest within
  | @next before found after out matched first rest =>
    refine .next (c :: before) matched (fun rest nonempty within => ?_) rest
    obtain rfl | within := List.suffix_cons_iff.mp within
    · exact none
    · exact first rest nonempty within

theorem replaced_iff {env : Environment} {text out : List Char} :
    Replaced pattern (replacement env) text out ↔ out = substituteChars env text := by
  constructor
  · intro h
    induction h with
    | @kept text none =>
      have copied : substituteChars env (text ++ []) = text ++ substituteChars env [] :=
        substituteChars_append_of_none fun rest _ within => by simpa using none rest within
      simpa [substituteChars] using copied.symm
    | @next before found after out matched first _ ih =>
      obtain ⟨name, known, rfl⟩ := mem_pattern.mp matched
      have copied : substituteChars env (before ++ (written name ++ after)) =
          before ++ substituteChars env (written name ++ after) :=
        substituteChars_append_of_none (by simpa using first)
      rw [replacement_written, ih, List.append_assoc before (written name), copied,
        substituteChars_written known, List.append_assoc]
  · rintro rfl
    induction text using substituteChars.induct with
    | case1 =>
      rw [substituteChars]
      refine .kept fun rest within => not_begins_iff.mpr ?_
      rw [List.eq_nil_of_suffix_nil within]
      rfl
    | case2 c cs name rest found ih =>
      obtain ⟨known, text⟩ := reference?_eq_some_iff.mp found
      rw [text, substituteChars_written known, ← replacement_written]
      exact .next [] (mem_pattern.mpr ⟨name, known, rfl⟩)
        (fun rest nonempty within => absurd (List.eq_nil_of_suffix_nil within) nonempty) ih
    | case3 c cs none ih =>
      rw [substituteChars_cons none]
      exact ih.cons (not_begins_iff.mpr none)

end Expression

theorem IsName.mem_nameParts {name : List Char} (known : IsName name) {c : Char} (h : c ∈ name) :
    c ∈ nameParts := by
  obtain ⟨start, cs, rfl, leads, parts⟩ := known
  obtain rfl | h := List.mem_cons.mp h
  · simp only [nameStarts, nameParts, List.mem_append] at leads ⊢
    tauto
  · exact parts c h

theorem IsName.dollar_not_mem {name : List Char} (known : IsName name) : '$' ∉ name := fun h =>
  absurd (known.mem_nameParts h) (by decide)

theorem written_eq_cons (name : List Char) :
    written name = '$' :: '\x7b' :: (name ++ ['\x7d']) := by
  simp [written]

/-- A name has no dollar sign, so a reference that begins before one also ends before it. -/
theorem reference?_append_dollar {cs after : List Char} (nonempty : cs ≠ [])
    (none : reference? cs = none) : reference? (cs ++ '$' :: after) = Option.none := by
  rw [reference?_eq_none_iff] at none ⊢
  rintro name known ⟨rest, split⟩
  obtain ⟨more, whole, -⟩ | ⟨more, part, close⟩ := List.append_eq_append_iff.mp split
  · exact none name known ⟨more, whole.symm⟩
  · cases more with
    | nil => exact none name known ⟨[], by simpa using part⟩
    | cons d more =>
      obtain ⟨c, cs, rfl⟩ := List.exists_cons_of_ne_nil nonempty
      obtain ⟨rfl, -⟩ := List.cons.inj close
      rw [written_eq_cons] at part
      have inside : '$' ∈ '\x7b' :: (name ++ ['\x7d']) := by
        rw [(List.cons.inj part).2]
        exact List.mem_append_right cs List.mem_cons_self
      exact known.dollar_not_mem (by simpa using inside)

theorem substituteChars_append_dollar (env : Environment) (before after : List Char) :
    substituteChars env (before ++ '$' :: after) =
      substituteChars env before ++ substituteChars env ('$' :: after) := by
  induction before using substituteChars.induct with
  | case1 => simp [substituteChars]
  | case2 c cs name rest found ih =>
    obtain ⟨known, text⟩ := reference?_eq_some_iff.mp found
    rw [text, List.append_assoc, substituteChars_written known, substituteChars_written known, ih,
      List.append_assoc]
  | case3 c cs none ih =>
    have still : reference? (c :: cs ++ '$' :: after) = Option.none :=
      reference?_append_dollar (List.cons_ne_nil c cs) none
    rw [List.cons_append] at still ⊢
    rw [substituteChars_cons still, substituteChars_cons none, ih, List.cons_append]

theorem substituteChars_eq_self {env : Environment} {text : List Char}
    (unset : ∀ name, IsName name → written name <:+: text → env (String.ofList name) = none) :
    substituteChars env text = text := by
  induction text using substituteChars.induct with
  | case1 => rw [substituteChars]
  | case2 c cs name rest found ih =>
    obtain ⟨known, text⟩ := reference?_eq_some_iff.mp found
    rw [text] at unset ⊢
    have here := unset name known (List.prefix_append _ _).isInfix
    have behind := ih fun name known within =>
      unset name known (within.trans (List.suffix_append _ _).isInfix)
    rw [substituteChars_written known, behind, valueOf, here]
  | case3 c cs none ih =>
    have behind := ih fun name known within =>
      unset name known (within.trans (List.suffix_cons _ _).isInfix)
    rw [substituteChars_cons none, behind]

def placeholder (name : String) : String :=
  String.ofList (written name.toList)

theorem toList_substitute (env : Environment) (text : String) :
    (substitute env text).toList = substituteChars env text.toList :=
  String.toList_ofList

theorem eq_substitute_iff {env : Environment} {text out : String} :
    out = substitute env text ↔ out.toList = substituteChars env text.toList := by
  rw [← toList_substitute, String.toList_inj]

theorem substitute_eq_self {env : Environment} {text : String}
    (unset : ∀ name : String, IsName name.toList → (placeholder name).toList <:+: text.toList →
      env name = none) : substitute env text = text := by
  refine (eq_substitute_iff.mpr (substituteChars_eq_self fun name known within => ?_).symm).symm
  exact unset (String.ofList name) (by simpa using known) (by simpa [placeholder] using within)

theorem substitute_append_placeholder (env : Environment) {name : String}
    (known : IsName name.toList) (before after : String) :
    substitute env (before ++ placeholder name ++ after) =
      substitute env before ++ (env name).getD (placeholder name) ++ substitute env after := by
  have value : ((env name).getD (placeholder name)).toList = valueOf env name.toList := by
    rw [valueOf, String.ofList_toList]
    cases env name <;> simp [placeholder]
  have split : substituteChars env (before.toList ++ (written name.toList ++ after.toList)) =
      substituteChars env before.toList ++
        substituteChars env (written name.toList ++ after.toList) := by
    rw [written_eq_cons]
    exact substituteChars_append_dollar env _ _
  symm
  rw [eq_substitute_iff]
  simp only [placeholder, String.toList_append, toList_substitute, String.toList_ofList,
    List.append_assoc, split, substituteChars_written known]
  rw [← value, placeholder]

theorem substitute_unclosed {env : Environment} {text : String} (unclosed : '\x7d' ∉ text.toList) :
    substitute env text = text := by
  refine substitute_eq_self fun name _ within => absurd (within.subset ?_) unclosed
  simp [placeholder, written]

theorem IsName.unclosed {name : List Char} (known : IsName name) : '\x7d' ∉ name := fun h =>
  absurd (known.mem_nameParts h) (by decide)

theorem substitute_forms {env : Environment} {a b : String} (first : IsName a.toList)
    (second : IsName b.toList) :
    substitute env ("$\x7b" ++ a ++ placeholder b) = "$\x7b" ++ a ++ (env b).getD (placeholder b) ∧
      substitute env ("$" ++ placeholder a) = "$" ++ (env a).getD (placeholder a) ∧
      substitute env "$\x7b\x7d" = "$\x7b\x7d" ∧
      substitute env (placeholder a ++ placeholder b) =
        (env a).getD (placeholder a) ++ (env b).getD (placeholder b) := by
  have empty : substitute env "" = "" := substitute_unclosed (by simp)
  have opened : substitute env ("$\x7b" ++ a) = "$\x7b" ++ a :=
    substitute_unclosed (by simpa using first.unclosed)
  have dollar : substitute env "$" = "$" := substitute_unclosed (by simp)
  have braces : substitute env "$\x7b\x7d" = "$\x7b\x7d" := by
    refine substitute_eq_self fun name known within => absurd within.length_le ?_
    obtain ⟨c, cs, text, -⟩ := known
    simp [placeholder, written, text]
  refine ⟨?_, ?_, braces, ?_⟩
  · simpa [empty, opened] using substitute_append_placeholder env second ("$\x7b" ++ a) ""
  · simpa [empty, dollar] using substitute_append_placeholder env first "$" ""
  · have left := substitute_append_placeholder env first "" (placeholder b)
    have right := substitute_append_placeholder env second "" ""
    simp only [empty, String.empty_append, String.append_empty] at left right
    rw [left, right]

/-- Substitution is the work of the scanner, and the replacement of the matches of the pattern. A
text in which no variable is set is unchanged. A reference can be replaced apart from what is
before it and behind it. -/
theorem substitute_scans (env : Environment) (text : String) :
    (∀ out : String, Scanned env text.toList out.toList ↔ out = substitute env text) ∧
      (∀ out : String, Replaced pattern (replacement env) text.toList out.toList ↔
        out = substitute env text) ∧
      ((∀ name : String, IsName name.toList → (placeholder name).toList <:+: text.toList →
        env name = none) → substitute env text = text) ∧
      (∀ before name after : String, IsName name.toList →
        text = before ++ placeholder name ++ after → substitute env text =
          substitute env before ++ (env name).getD (placeholder name) ++ substitute env after) ∧
      ∀ a b : String, IsName a.toList → IsName b.toList →
        substitute env ("$\x7b" ++ a ++ placeholder b) =
            "$\x7b" ++ a ++ (env b).getD (placeholder b) ∧
          substitute env ("$" ++ placeholder a) = "$" ++ (env a).getD (placeholder a) ∧
          substitute env "$\x7b\x7d" = "$\x7b\x7d" ∧
          substitute env (placeholder a ++ placeholder b) =
            (env a).getD (placeholder a) ++ (env b).getD (placeholder b) := by
  refine ⟨fun out => ?_, fun out => ?_, substitute_eq_self, ?_, fun a b => substitute_forms⟩
  · rw [scanned_iff, eq_substitute_iff]
  · rw [replaced_iff, eq_substitute_iff]
  · rintro before name after known rfl
    exact substitute_append_placeholder env known before after

def nested : Environment := fun name =>
  if name = "A" then some "$\x7bB\x7d" else if name = "B" then some "b" else none

/-- The inserted reference stays, and a false start does not hide the reference in it. -/
theorem substitute_scans_nested :
    IsName "A".toList ∧ IsName "B".toList ∧
      substitute nested "x$\x7bA\x7dy" = "x$\x7bB\x7dy" ∧
      substitute nested "$\x7bA$\x7bB\x7d" = "$\x7bAb" ∧
      substitute (fun _ => none) "$\x7bA\x7d" = "$\x7bA\x7d" := by
  have first : IsName "A".toList := ⟨'A', [], rfl, by decide, by simp⟩
  have second : IsName "B".toList := ⟨'B', [], rfl, by decide, by simp⟩
  refine ⟨first, second, ?_, ?_, ?_⟩
  · have h := (substitute_scans nested "x$\x7bA\x7dy").2.2.2.1 "x" "A" "y" first (by decide)
    rw [h, substitute_unclosed (by simp), substitute_unclosed (by simp)]
    decide
  · exact ((substitute_scans nested "").2.2.2.2 "A" "B" first second).1
  · exact (substitute_scans (fun _ => none) _).2.2.1 fun _ _ _ => rfl

end BridgeNotifier.Placeholder
