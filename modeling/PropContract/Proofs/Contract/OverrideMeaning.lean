import PropContract.Proofs.Contract.Override
import PropContract.Proofs.Parse.Complete

/-!
# What overrides mean

An override that passes its check has a meaning, and is read as what it means. Only an empty array passes
without one.
-/

namespace PropContract

namespace NumericType

/-- The word for a numeric type, with a question mark where null is allowed. -/
def word (type : NumericType) (nullable : Bool) : String :=
  type.name ++ if nullable then "?" else ""

/-- Only the word for a type reads as the type. -/
theorem eq_word_of_parse? {text : String} {type : NumericType} {nullable : Bool}
    (h : parse? text = some (type, nullable)) : text = type.word nullable := by
  rw [parse?] at h
  split at h <;>
    · obtain ⟨t, ht, heq⟩ := Option.map_eq_some_iff.mp h
      cases heq
      simpa [word] using List.find?_some ht

end NumericType

/-- The list of words and the reading of words agree. -/
theorem overrideWords_contains_iff (text : String) :
    overrideWords.contains text = true ↔ text = ignoreWord ∨ (NumericType.parse? text).isSome = true := by
  constructor
  · intro h
    simp only [overrideWords, List.contains_eq_mem, List.mem_cons, List.not_mem_nil, or_false,
      decide_eq_true_eq] at h
    rcases h with rfl | rfl | rfl | rfl | rfl | rfl | rfl
    case inr.inr.inr.inr.inr.inr => exact Or.inl rfl
    all_goals exact Or.inr (by decide)
  · rintro (rfl | h)
    · decide
    · obtain ⟨⟨type, nullable⟩, hparse⟩ := Option.isSome_iff_exists.mp h
      rw [NumericType.eq_word_of_parse? hparse]
      cases type <;> cases nullable <;> decide

namespace Arena

mutual

/-- What an override value means. An empty array has a meaning without an element. -/
inductive Means (a : Arena) : Child → Override → Prop
  | ignore {v} (h : a.stringText (a.unparenthesized v) = some ignoreWord) : Means a v .ignore
  | named {v type nullable} (h : a.stringText (a.unparenthesized v) = some (type.word nullable)) :
      Means a v (.named type nullable)
  | component {v name} (h : a.form? (a.unparenthesized v) = some (.identifier name)) :
      Means a v (.component name)
  | emptyArray {v} (h : a.form? (a.unparenthesized v) = some (.arrayLiteral [])) :
      Means a v (.arrayOf .invalid)
  | array {v first rest element} (h : a.form? (a.unparenthesized v) = some (.arrayLiteral (first :: rest)))
      (he : Means a first element) : Means a v (.arrayOf element)
  | object {v elements entries} (h : a.form? (a.unparenthesized v) = some (.objectLiteral elements))
      (hes : MeansEach a (a.overrideEntries (a.unparenthesized v)) entries) : Means a v (.object entries)

/-- What the entries of an override object mean, each under its own name. -/
inductive MeansEach (a : Arena) : List (String × Child) → List (String × Override) → Prop
  | nil : MeansEach a [] []
  | cons {key v o entries os} (h : Means a v o) (hs : MeansEach a entries os) :
      MeansEach a ((key, v) :: entries) ((key, o) :: os)

end

variable {a : Arena} {n : Nat} {v : Child}

theorem MeansEach.map {entries : List (String × Child)} {read : Child → Override}
    (h : ∀ key v, (key, v) ∈ entries → a.Means v (read v)) :
    a.MeansEach entries (entries.map fun (key, v) => (key, read v)) := by
  induction entries with
  | nil => exact .nil
  | cons e entries ih =>
      obtain ⟨key, v⟩ := e
      exact .cons (h key v (by simp)) (ih fun k w hw => h k w (List.mem_cons_of_mem _ hw))

theorem Means.of_identifier {name : String} (h : a.form? v = some (.identifier name)) :
    a.Means v (Override.ofValueIn a (n + 1) v) := by
  have hv : a.unparenthesized v = v := unparenthesized_eq_self (by simp [h])
  simp only [Override.ofValueIn, hv, h]
  exact .component (hv.symm ▸ h)

/-- A text that is one of the words is read as what the word means. -/
theorem Means.of_word {text : String} (h : a.stringText (a.unparenthesized v) = some text)
    (hword : overrideWords.contains text = true) :
    a.Means v (if text = ignoreWord then .ignore else
      match NumericType.parse? text with
      | some (type, nullable) => .named type nullable
      | none => .invalid) := by
  split
  · rename_i hignore
    exact .ignore (hignore ▸ h)
  · rename_i hignore
    rcases (overrideWords_contains_iff text).mp hword with hignore' | hparse
    · exact absurd hignore' hignore
    · obtain ⟨⟨type, nullable⟩, hparse⟩ := Option.isSome_iff_exists.mp hparse
      rw [hparse]
      exact .named (NumericType.eq_word_of_parse? hparse ▸ h)

/-! ## Values that pass -/

/-- A value that is there and has no faults on `n` levels, or is a name alone. -/
structure Passes (a : Arena) (n : Nat) (v : Child) : Prop where
  form : ∃ form, a.form? v = some form
  passes : a.valueFindings n v = [] ∨ ∃ name, a.form? v = some (.identifier name)

/-- Inside the parentheses of a complete tree there is something. -/
theorem Complete.unparenthesized (h : a.Complete) (hv : ∃ form, a.form? v = some form) :
    ∃ form, a.form? (a.unparenthesized v) = some form := by
  have strip (n : Nat) {v : Child} (hv : ∃ form, a.form? v = some form) :
      ∃ form, a.form? (a.stripParentheses n v) = some form := by
    induction n generalizing v with
    | zero => exact hv
    | succ n ih =>
        unfold stripParentheses
        split
        · rename_i e hform
          exact ih (h.child hform (by simp [Form.row]))
        · exact hv
  exact strip a.size hv

/-- The entries of an object without faults pass. -/
theorem Passes.of_elementFindings (h : a.Complete) (hlawful : a.Lawful) {object : Child}
    (hfindings : a.elementFindings (a.valueFindings n) object = []) {key : String}
    (hv : (key, v) ∈ a.overrideEntries object) : a.Passes n v := by
  rcases overrideEntries_cases hfindings hv with ⟨element, name, hform, hvalue⟩ | ⟨element, name, hform, rfl, -⟩
  · exact ⟨h.child hform (by simp [Form.row]), Or.inl hvalue⟩
  · cases element with
    | none => cases hform
    | some id =>
        obtain ⟨text, htext⟩ := hlawful.shorthand hform
        exact ⟨⟨_, htext⟩, Or.inr ⟨text, htext⟩⟩

/-- What passes on `n` levels is read on one level more as what it means. -/
theorem Passes.means (h : a.Complete) (hlawful : a.Lawful) (hv : a.Passes n v) :
    a.Means v (Override.ofValueIn a (n + 1) v) := by
  induction n generalizing v with
  | zero =>
      rcases hv.passes with hfindings | ⟨name, hname⟩
      · obtain ⟨form, hform⟩ := h.unparenthesized hv.form
        simp [valueFindings, hform] at hfindings
      · exact .of_identifier hname
  | succ n ih =>
      rcases hv.passes with hfindings | ⟨name, hname⟩
      case inr => exact .of_identifier hname
      simp only [valueFindings] at hfindings
      rw [Override.ofValueIn]
      split at hfindings <;> rename_i hvalue
      case h_1 =>
        obtain ⟨form, hform⟩ := h.unparenthesized hv.form
        rw [hform] at hvalue
        cases hvalue
      case h_2 elements =>
        simp only [hvalue]
        refine .object hvalue (.map fun key w hw => ?_)
        exact ih (.of_elementFindings h hlawful hfindings hw)
      case h_3 text =>
        simp only [hvalue]
        refine .of_word (by simp [stringText, hvalue]) ?_
        by_contra hword
        rw [if_neg hword] at hfindings
        cases hfindings
      case h_4 text =>
        simp only [hvalue]
        refine .of_word (by simp [stringText, hvalue]) ?_
        by_contra hword
        rw [if_neg hword] at hfindings
        cases hfindings
      case h_5 elements =>
        simp only [hvalue]
        cases elements with
        | nil => exact .emptyArray hvalue
        | cons first rest =>
            exact .array hvalue (ih ⟨h.child hvalue (by simp [Form.row]), Or.inl hfindings⟩)
      case h_6 name =>
        simp only [hvalue]
        exact .component hvalue
      case h_7 => cases hfindings

end Arena

namespace Module

/-- In a module without errors, the overrides of an object that passes its check are read as what they mean,
at every depth. The check knows the words that can be read, and no others. -/
theorem overrides_mean (fileName text : String) :
    let m := Module.parse fileName text
    (m.errors = [] → ∀ object, m.arena.overrideFindings object = [] →
      ∀ key v, (key, v) ∈ m.arena.overrideEntries object →
        m.arena.Means v (Override.ofValue m.arena v)) ∧
    ∀ word, overrideWords.contains word = true ↔
      word = ignoreWord ∨ (NumericType.parse? word).isSome = true := by
  intro m
  refine ⟨fun herrors object hfindings key v hv => ?_, overrideWords_contains_iff⟩
  have hlawful : m.arena.Lawful := lawful_parse fileName text
  have hcomplete : m.arena.Complete := (spanned_parse fileName text herrors).complete hlawful
  exact (Arena.Passes.of_elementFindings hcomplete hlawful hfindings hv).means hcomplete hlawful

theorem overrides_mean_nested :
    let m := Module.parse "a.js" "C.meta = \x7ba: ('int?'), b: [], c: \x7bd: `ignore`, Card\x7d\x7d;"
    m.errors = [] ∧ m.arena.overrideFindings (some 18) = [] ∧
      m.arena.Means (some 16) (Override.ofValue m.arena (some 16)) := by
  intro m
  obtain ⟨herrors, hfindings, hentry⟩ : m.errors = [] ∧ m.arena.overrideFindings (some 18) = [] ∧
      ("c", some 16) ∈ m.arena.overrideEntries (some 18) := by
    decide +kernel
  exact ⟨herrors, hfindings, (overrides_mean _ _).1 herrors (some 18) hfindings "c" (some 16) hentry⟩

end Module

end PropContract
