import PropContract.Proofs.Parse.Complete
import PropContract.Proofs.Parse.Tree

/-!
# Values of enumerations

What literals say, and which of the elements of an array get lost: those whose number is written in a way
that cannot be read.
-/

namespace PropContract

open Text

namespace Arena

variable {a : Arena} {e operand inner : Child} {text : String} {v : EnumValue} {x : Float} {n : Nat}

/-! ## Literals -/

/-- What a literal says, with any number of signs and in any number of parentheses. -/
inductive Says (a : Arena) : Child → EnumValue → Prop
  | string {e : Child} {text : String} (h : a.form? e = some (.literal .string text)) : Says a e (.string text)
  | template {e : Child} {text : String} (h : a.form? e = some (.literal .plainTemplate text)) :
      Says a e (.string text)
  | number {e : Child} {text : String} {x : Float} (h : a.form? e = some (.literal .numeric text))
      (hx : Numeral.value? text = some x) : Says a e (.number x)
  | minus {e operand : Child} {x : Float} (h : a.form? e = some (.prefixUnary (.punct .minus) operand))
      (hx : Says a operand (.number x)) : Says a e (.number (-x))
  | trueWord {e : Child} (h : a.form? e = some (.constant .trueWord)) : Says a e (.bool true)
  | falseWord {e : Child} (h : a.form? e = some (.constant .falseWord)) : Says a e (.bool false)
  | nullWord {e : Child} (h : a.form? e = some (.constant .nullWord)) : Says a e .null
  | parentheses {e inner : Child} {v : EnumValue} (h : a.form? e = some (.parenthesized inner))
      (hv : Says a inner v) : Says a e v

/-- Whether an expression is a number with this numeral. -/
inductive IsNumber (a : Arena) : Child → (numeral : String) → Prop
  | numeral {e : Child} {text : String} (h : a.form? e = some (.literal .numeric text)) : IsNumber a e text
  | minus {e operand : Child} {text : String} (h : a.form? e = some (.prefixUnary (.punct .minus) operand))
      (hx : IsNumber a operand text) : IsNumber a e text
  | parentheses {e inner : Child} {text : String} (h : a.form? e = some (.parenthesized inner))
      (hx : IsNumber a inner text) : IsNumber a e text

/-- Whether an expression is a string, a number, a truth value or `null`. -/
inductive IsLiteral (a : Arena) : Child → Prop
  | string {e : Child} {text : String} (h : a.form? e = some (.literal .string text)) : IsLiteral a e
  | template {e : Child} {text : String} (h : a.form? e = some (.literal .plainTemplate text)) : IsLiteral a e
  | number {e : Child} {text : String} (h : IsNumber a e text) : IsLiteral a e
  | trueWord {e : Child} (h : a.form? e = some (.constant .trueWord)) : IsLiteral a e
  | falseWord {e : Child} (h : a.form? e = some (.constant .falseWord)) : IsLiteral a e
  | nullWord {e : Child} (h : a.form? e = some (.constant .nullWord)) : IsLiteral a e
  | parentheses {e inner : Child} (h : a.form? e = some (.parenthesized inner)) (hx : IsLiteral a inner) :
      IsLiteral a e

/-- Whether an expression is a number whose numeral cannot be read. -/
def IsLost (a : Arena) (e : Child) : Prop :=
  ∃ text, a.IsNumber e text ∧ Numeral.IsLost text

/-! ## Reading literals -/

theorem Says.of_stripParentheses (h : a.Says (a.stripParentheses n e) v) : a.Says e v := by
  induction n generalizing e with
  | zero => exact h
  | succ n ih =>
      rw [stripParentheses] at h
      split at h
      · rename_i hform
        exact .parentheses hform (ih h)
      · exact h

theorem says_of_literalValueIn (h : a.literalValueIn n e = some v) : a.Says e v := by
  induction n generalizing e v with
  | zero => cases h
  | succ n ih =>
      apply Says.of_stripParentheses (n := a.size)
      rw [literalValueIn] at h
      split at h
      · cases h
        exact .string ‹_›
      · cases h
        exact .template ‹_›
      · obtain ⟨x, hx, rfl⟩ := Option.map_eq_some_iff.mp h
        exact .number ‹_› hx
      · split at h
        · cases h
          exact .minus ‹_› (ih ‹_›)
        · cases h
      · cases h
        exact .trueWord ‹_›
      · cases h
        exact .falseWord ‹_›
      · cases h
        exact .nullWord ‹_›
      · cases h

theorem unparenthesized_of_form?_ne {form : Form} (hform : a.form? e = some form)
    (hne : ∀ e, form ≠ .parenthesized e) : a.unparenthesized e = e :=
  unparenthesized_eq_self fun _ he => hne _ (Option.some.inj (hform.symm.trans he))

theorem Says.literalValue (h : a.LinksEnd) (hv : a.Says e v) : a.literalValue e = some v := by
  induction hv with
  | minus hform _ ih =>
      rw [← h.value _ _ (Nat.le_refl _)] at ih
      simp [Arena.literalValue, literalValueIn, unparenthesized_of_form?_ne hform, hform, ih]
  | parentheses hform _ ih => rwa [Arena.literalValue, literalValueIn, h.unparenthesized_eq hform]
  | number hform hx => simp [Arena.literalValue, literalValueIn, unparenthesized_of_form?_ne hform, hform, hx]
  | _ hform => simp [Arena.literalValue, literalValueIn, unparenthesized_of_form?_ne hform, hform]

theorem LinksEnd.literalValue_eq_some_iff (h : a.LinksEnd) : a.literalValue e = some v ↔ a.Says e v :=
  ⟨says_of_literalValueIn, Says.literalValue h⟩

/-! ## Numbers -/

theorem IsNumber.exists_value (h : a.IsNumber e text) (hx : Numeral.value? text = some x) : ∃ y, a.Says e (.number y) := by
  induction h with
  | numeral hform => exact ⟨x, .number hform hx⟩
  | minus hform _ ih =>
      obtain ⟨y, hy⟩ := ih hx
      exact ⟨-y, .minus hform hy⟩
  | parentheses hform _ ih =>
      obtain ⟨y, hy⟩ := ih hx
      exact ⟨y, .parentheses hform hy⟩

/-- A number says nothing where its numeral has no value. -/
theorem IsNumber.no_value (h : a.IsNumber e text) (hx : Numeral.value? text = none) : ¬ a.Says e v := by
  induction h generalizing v with
  | numeral hform =>
      intro hv
      cases hv with
      | number hform' hx' =>
          cases hform.symm.trans hform'
          exact nomatch hx.symm.trans hx'
      | _ hform' => cases hform.symm.trans hform'
  | minus hform _ ih =>
      intro hv
      cases hv with
      | minus hform' hx' =>
          cases hform.symm.trans hform'
          exact ih hx hx'
      | _ hform' => cases hform.symm.trans hform'
  | parentheses hform _ ih =>
      intro hv
      cases hv with
      | parentheses hform' hv' =>
          cases hform.symm.trans hform'
          exact ih hx hv'
      | _ hform' => cases hform.symm.trans hform'

theorem IsNumber.isNumeral (h : a.Lawful) (he : a.IsNumber e text) : Numeral.IsNumeral text := by
  induction he with
  | @numeral e text hform =>
      cases e with
      | none => exact nomatch hform
      | some id => exact (h.of_form? hform).choose_spec
  | minus _ _ ih => exact ih
  | parentheses _ _ ih => exact ih

/-- A literal says something, unless it is a number. -/
theorem IsLiteral.says_or (h : a.IsLiteral e) : (∃ v, a.Says e v) ∨ ∃ text, a.IsNumber e text := by
  induction h with
  | string hform => exact .inl ⟨_, .string hform⟩
  | template hform => exact .inl ⟨_, .template hform⟩
  | number h => exact .inr ⟨_, h⟩
  | trueWord hform => exact .inl ⟨_, .trueWord hform⟩
  | falseWord hform => exact .inl ⟨_, .falseWord hform⟩
  | nullWord hform => exact .inl ⟨_, .nullWord hform⟩
  | parentheses hform _ ih =>
      rcases ih with ⟨v, hv⟩ | ⟨text, h⟩
      · exact .inl ⟨v, .parentheses hform hv⟩
      · exact .inr ⟨text, .parentheses hform h⟩

/-- A literal says something or is lost. -/
theorem IsLiteral.says_iff (hlawful : a.Lawful) (h : a.IsLiteral e) : (∃ v, a.Says e v) ↔ ¬ a.IsLost e := by
  constructor
  · rintro ⟨v, hv⟩ ⟨text, hnumber, hlost⟩
    exact hnumber.no_value ((Numeral.value?_eq_none_iff (hnumber.isNumeral hlawful)).mpr hlost) hv
  · intro hkept
    rcases h.says_or with hv | ⟨text, hnumber⟩
    · exact hv
    · cases hx : Numeral.value? text with
      | some x =>
          obtain ⟨y, hy⟩ := hnumber.exists_value hx
          exact ⟨_, hy⟩
      | none =>
          exact absurd ⟨text, hnumber, (Numeral.value?_eq_none_iff (hnumber.isNumeral hlawful)).mp hx⟩ hkept

/-! ## Arrays -/

/-- What is read of a literal: what it says, or nothing where it is lost. -/
inductive Reads (a : Arena) : Child → Option EnumValue → Prop
  | said {e : Child} {v : EnumValue} (h : Says a e v) : Reads a e (some v)
  | lost {e : Child} (h : IsLost a e) : Reads a e none

theorem IsLiteral.reads (hlinks : a.LinksEnd) (hlawful : a.Lawful) (h : a.IsLiteral e) :
    a.Reads e (a.literalValue e) := by
  cases hv : a.literalValue e with
  | some v => exact .said (hlinks.literalValue_eq_some_iff.mp hv)
  | none =>
      refine .lost (Classical.byContradiction fun hkept => ?_)
      obtain ⟨v, hsaid⟩ := (h.says_iff hlawful).mpr hkept
      exact nomatch hv.symm.trans (hlinks.literalValue_eq_some_iff.mpr hsaid)

theorem arrayValues_eq {array : NodeId} {elements : List Child}
    (hform : a.form? (some array) = some (.arrayLiteral elements)) :
    a.arrayValues array = elements.filterMap a.literalValue := by
  rw [arrayValues, literalElements, hform]

theorem exists_says_of_forall₂ {elements : List Child} {values : List EnumValue}
    (h : List.Forall₂ a.Says elements values) : ∀ e ∈ elements, ∃ v, a.Says e v := by
  induction h with
  | nil => simp
  | cons hv _ ih => exact List.forall_mem_cons.mpr ⟨⟨_, hv⟩, ih⟩

theorem LinksEnd.forall₂_values (h : a.LinksEnd) {elements : List Child} (hsaid : ∀ e ∈ elements, ∃ v, a.Says e v) :
    List.Forall₂ a.Says elements (elements.filterMap a.literalValue) := by
  induction elements with
  | nil => exact .nil
  | cons e elements ih =>
      obtain ⟨⟨v, hv⟩, hrest⟩ := List.forall_mem_cons.mp hsaid
      rw [List.filterMap_cons_some (h.literalValue_eq_some_iff.mpr hv)]
      exact .cons hv (ih hrest)

end Arena

namespace Module

open Arena

/-- The values of an array of literals are what its elements say, in their order, without those that are lost.
So there is one value for every element exactly where no numeral is lost. -/
theorem arrayValues_literals (fileName text : String) {array : NodeId} {elements : List Child}
    (hform : (Module.parse fileName text).arena.form? (some array) = some (.arrayLiteral elements))
    (hliteral : ∀ e ∈ elements, (Module.parse fileName text).arena.IsLiteral e) :
    let a := (Module.parse fileName text).arena
    (∃ values, List.Forall₂ a.Reads elements values ∧ a.arrayValues array = values.reduceOption) ∧
      (List.Forall₂ a.Says elements (a.arrayValues array) ↔ ∀ e ∈ elements, ¬ a.IsLost e) := by
  have hlawful := lawful_parse fileName text
  have hlinks := (forest_arena fileName text).linksEnd
  generalize (Module.parse fileName text).arena = a at hform hliteral hlawful hlinks ⊢
  have hsaid {e : Child} (he : e ∈ elements) : (∃ v, a.Says e v) ↔ ¬ a.IsLost e := (hliteral e he).says_iff hlawful
  dsimp only
  rw [arrayValues_eq hform]
  refine ⟨⟨elements.map a.literalValue, ?_, ?_⟩, fun h e he => ?_, fun h => ?_⟩
  · rw [List.forall₂_map_right_iff, List.forall₂_same]
    exact fun e he => (hliteral e he).reads hlinks hlawful
  · rw [List.reduceOption, List.filterMap_map, Function.id_comp]
  · exact (hsaid he).mp (exists_says_of_forall₂ h e he)
  · exact hlinks.forall₂_values fun e he => (hsaid he).mpr (h e he)

/-- A number under a sign and in parentheses, a string, and a number without digits. -/
def literals : Module :=
  .parse "A.js" "x = [-(0x1F), 'a', 0x]"

theorem literals_forms :
    literals.arena.form? (some 6) = some (.arrayLiteral [some 3, some 4, some 5]) ∧
    literals.arena.form? (some 3) = some (.prefixUnary (.punct .minus) (some 2)) ∧
    literals.arena.form? (some 2) = some (.parenthesized (some 1)) ∧
    literals.arena.form? (some 1) = some (.literal .numeric "0x1F") ∧
    literals.arena.form? (some 4) = some (.literal .string "a") ∧
    literals.arena.form? (some 5) = some (.literal .numeric "0x") := by
  decide +kernel

theorem arrayValues_literals_signed :
    literals.arena.form? (some 6) = some (.arrayLiteral [some 3, some 4, some 5]) ∧
      (∀ e ∈ [some 3, some 4, some 5], literals.arena.IsLiteral e) ∧
      (∃ values, List.Forall₂ literals.arena.Reads [some 3, some 4, some 5] values ∧
        literals.arena.arrayValues 6 = values.reduceOption) ∧
      (List.Forall₂ literals.arena.Says [some 3, some 4, some 5] (literals.arena.arrayValues 6) ↔
        ∀ e ∈ [some 3, some 4, some 5], ¬ literals.arena.IsLost e) := by
  obtain ⟨harray, hminus, hparens, hnumber, hstring, hbare⟩ := literals_forms
  have hliteral : ∀ e ∈ [some 3, some 4, some 5], literals.arena.IsLiteral e := by
    simp only [List.forall_mem_cons, List.not_mem_nil, false_implies, implies_true, and_true]
    exact ⟨.number (.minus hminus (.parentheses hparens (.numeral hnumber))), .string hstring,
      .number (.numeral hbare)⟩
  exact ⟨harray, hliteral, arrayValues_literals "A.js" "x = [-(0x1F), 'a', 0x]" harray hliteral⟩

/-- Numbers of more than 64 bits, without digits and with a digit outside of their base are lost without an
error. -/
theorem arrayValues_lost :
    let m := Module.parse "A.js" "x = [0x10000000000000000, 0x, 0b9, 7]"
    m.errors = [] ∧ m.arena.form? (some 5) = some (.arrayLiteral [some 1, some 2, some 3, some 4]) ∧
      (∀ e ∈ [some 1, some 2, some 3, some 4], m.arena.IsLiteral e) ∧ (m.arena.arrayValues 5).length = 1 := by
  intro m
  obtain ⟨herrors, harray, hlarge, hbare, houtside, hplain, hlength⟩ :
      m.errors = [] ∧ m.arena.form? (some 5) = some (.arrayLiteral [some 1, some 2, some 3, some 4]) ∧
        m.arena.form? (some 1) = some (.literal .numeric "0x10000000000000000") ∧
        m.arena.form? (some 2) = some (.literal .numeric "0x") ∧
        m.arena.form? (some 3) = some (.literal .numeric "0b9") ∧
        m.arena.form? (some 4) = some (.literal .numeric "7") ∧ (m.arena.arrayValues 5).length = 1 := by
    decide +kernel
  refine ⟨herrors, harray, ?_, hlength⟩
  simp only [List.forall_mem_cons, List.not_mem_nil, false_implies, implies_true, and_true]
  exact ⟨.number (.numeral hlarge), .number (.numeral hbare), .number (.numeral houtside),
    .number (.numeral hplain)⟩

end Module

end PropContract
