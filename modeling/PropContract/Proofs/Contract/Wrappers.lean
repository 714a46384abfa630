import PropContract.Contract.Merge
import PropContract.Proofs.Contract.Renumber.Classify
import PropContract.Proofs.Parse.Tree

/-!
# Wrapped validators

A validator may stand in parentheses, carry required marks and be the element of arrays, all of it in any
order. Whoever reads it through the wrappers finds the same validator inside so many arrays.
-/

namespace PropContract

/-- What a validator can be wrapped in. -/
inductive Wrapper where
  | parentheses
  | required
  | array
deriving DecidableEq, Repr

/-- Whether a stack of wrappers, the outermost first, marks its property as required: a mark on the
element of an array means nothing. -/
def Wrapper.isRequired (ws : List Wrapper) : Bool :=
  (ws.takeWhile (· != .array)).contains .required

namespace Arena

variable {a : Arena} {r : Resolver} {w : Wrapper} {ws : List Wrapper} {c e outer inner name : Child} {n : Nat}

/-- Whether an expression is another one in a wrapper. -/
inductive Wraps (a : Arena) (r : Resolver) : Wrapper → (outer inner : Child) → Prop
  | parentheses {outer inner : Child} (h : a.form? outer = some (.parenthesized inner)) :
      Wraps a r .parentheses outer inner
  | required {outer inner name : Child} {optional : Bool}
      (h : a.form? outer = some (.propertyAccess inner name optional))
      (hname : a.identifierText name = some requiredWord) : Wraps a r .required outer inner
  | array {outer callee : Child} {first : NodeId} {rest : List Child} {optional : Bool} {ns : String}
      (h : a.form? outer = some (.call callee (some first :: rest) optional))
      (hcallee : a.accessChain callee = some [ns, "arrayOf"]) (hns : r.isValidatorNamespace ns = true) :
      Wraps a r .array outer (some first)

/-- Whether an expression is another one in a stack of wrappers, the outermost first. -/
inductive WrapsAll (a : Arena) (r : Resolver) : List Wrapper → (outer inner : Child) → Prop
  | nil {e : Child} : WrapsAll a r [] e e
  | cons {w : Wrapper} {ws : List Wrapper} {outer middle inner : Child} (h : Wraps a r w outer middle)
      (hrest : WrapsAll a r ws middle inner) : WrapsAll a r (w :: ws) outer inner

/-! ## Required marks -/

/-- A mark that is found already only adds to the outcome. -/
theorem stripRequiredIn_true (n : Nat) (c : Child) :
    a.stripRequiredIn n c true = ((a.stripRequiredIn n c false).1, true) := by
  induction n generalizing c with
  | zero => rfl
  | succ n ih =>
      rw [stripRequiredIn, stripRequiredIn]
      split
      · split
        · rw [ih]
        · rfl
      · rfl

theorem LinksEnd.stripRequired_parenthesized (h : a.LinksEnd)
    (hform : a.form? outer = some (.parenthesized inner)) : a.stripRequired outer = a.stripRequired inner := by
  rw [stripRequired, stripRequired, stripRequiredIn, stripRequiredIn, h.unparenthesized_eq hform]

theorem LinksEnd.stripRequired_marked (h : a.LinksEnd) {optional : Bool}
    (hform : a.form? outer = some (.propertyAccess inner name optional))
    (hname : a.identifierText name = some requiredWord) :
    a.stripRequired outer = ((a.stripRequired inner).1, true) := by
  have hself : a.unparenthesized outer = outer := unparenthesized_eq_self fun e he => by
    cases hform.symm.trans he
  rw [stripRequired, stripRequiredIn, hself, hform]
  simp only [hname, ↓reduceIte]
  rw [stripRequiredIn_true, h.required _ _ (Nat.le_refl _)]

theorem stripRequired_eq_self (hparenthesized : ∀ e, a.form? c ≠ some (.parenthesized e))
    (hmarked : ∀ target name optional, a.form? c = some (.propertyAccess target name optional) →
      a.identifierText name ≠ some requiredWord) : a.stripRequired c = (c, false) := by
  rw [stripRequired, stripRequiredIn, unparenthesized_eq_self hparenthesized]
  split
  · rename_i target name optional hform
    exact if_neg (hmarked _ _ _ hform)
  · rfl

/-- An expression without a wrapper is not marked either. -/
theorem stripRequired_of_not_wraps (h : ∀ w e, ¬ a.Wraps r w c e) : a.stripRequired c = (c, false) :=
  stripRequired_eq_self (fun e he => h .parentheses e (.parentheses he))
    fun target _ _ hform hname => h .required target (.required hform hname)

end Arena

namespace Classified

/-- A validator inside `n` more arrays. -/
def inArrays : Classified → (n : Nat) → Classified
  | .valid type, n => .valid (type.inArrays n)
  | .nested properties arrays, n => .nested properties (arrays + n)
  | .invalid v, _ => .invalid v

theorem inArrays_zero (x : Classified) : x.inArrays 0 = x := by
  cases x <;> rfl

theorem inArray_inArrays (x : Classified) (n : Nat) : (x.inArrays n).inArray = x.inArrays (n + 1) := by
  cases x <;> rfl

/-! ## One wrapper -/

section

variable {a : Arena} {r : Resolver} {w : Wrapper} {ws : List Wrapper} {outer inner : Child} (field : String)
  (reader : ShapeReader)

theorem ofValue_eq_of_stripRequired {required : Bool}
    (h : a.stripRequired outer = ((a.stripRequired inner).1, required)) :
    ofValue a r field reader outer = (fun x => (x.1, required)) <$> ofValue a r field reader inner := by
  rw [ofValue, ofValue, ofValueIn, ofValueIn, h]
  rfl

theorem ofValue_of_not_wraps (h : ∀ w e, ¬ a.Wraps r w inner e) :
    ofValue a r field reader inner = (fun x => (x.1, false)) <$> ofValue a r field reader inner :=
  ofValue_eq_of_stripRequired field reader (by rw [Arena.stripRequired_of_not_wraps h])

theorem ofValue_arrayOf (h : a.Forest) {callee : Child} {first : NodeId} {rest : List Child} {optional : Bool}
    {ns : String} (hform : a.form? outer = some (.call callee (some first :: rest) optional))
    (hcallee : a.accessChain callee = some [ns, "arrayOf"]) (hns : r.isValidatorNamespace ns = true) :
    ofValue a r field reader outer =
      (fun x => (x.1.inArray, false)) <$> ofValue a r field reader (some first) := by
  have hstrip : a.stripRequired outer = (outer, false) :=
    Arena.stripRequired_eq_self (fun e he => by cases hform.symm.trans he)
      fun _ _ _ h => by cases hform.symm.trans h
  have hname : validatorName? a r callee = some "arrayOf" := by
    simp [validatorName?, hcallee, hns]
  have hreach := a.reach_le (some first)
  have hvalue : ofValueIn a r field reader a.size (some first) = ofValue a r field reader (some first) :=
    ofValueIn_eq r field reader h hreach (hreach.trans (Nat.le_succ _))
  have hleaf : ofLeaf a r field reader (ofValueIn a r field reader a.size) outer =
      (fun x => x.1.inArray) <$> ofValue a r field reader (some first) := by
    rw [← hvalue, ofLeaf, hform]
    simp only [ofCall, hname]
    rfl
  rw [ofValue, ofValueIn, hstrip]
  dsimp only
  rw [hleaf]
  rfl

/-! ## A stack of wrappers -/

theorem ofValue_wraps (h : a.Forest) (hw : a.Wraps r w outer inner) :
    ofValue a r field reader outer =
      match w with
      | .parentheses => ofValue a r field reader inner
      | .required => (fun x => (x.1, true)) <$> ofValue a r field reader inner
      | .array => (fun x => (x.1.inArray, false)) <$> ofValue a r field reader inner := by
  cases hw with
  | parentheses hform =>
      rw [ofValue, ofValueIn, h.linksEnd.stripRequired_parenthesized hform]
      rfl
  | required hform hname =>
      exact ofValue_eq_of_stripRequired field reader (h.linksEnd.stripRequired_marked hform hname)
  | array hform hcallee hns => exact ofValue_arrayOf field reader h hform hcallee hns

theorem ofValue_of_wrapsAll (h : a.Forest) (hws : a.WrapsAll r ws outer inner)
    (hinner : ∀ w e, ¬ a.Wraps r w inner e) :
    ofValue a r field reader outer =
      (fun x => (x.1.inArrays (ws.count .array), Wrapper.isRequired ws)) <$> ofValue a r field reader inner := by
  induction hws with
  | nil =>
      simp only [List.count_nil, inArrays_zero]
      exact ofValue_of_not_wraps field reader hinner
  | @cons w ws outer middle inner hw _ ih =>
      rw [ofValue_wraps field reader h hw, ih hinner]
      cases w with
      | parentheses => rfl
      | required =>
          rw [Functor.map_map]
          rfl
      | array =>
          simp only [Functor.map_map, inArray_inArrays, List.count_cons_self]
          rfl

end

end Classified

/-! ## Arrays in the model -/

theorem PropertyType.inArrays_inArrays (type : PropertyType) (m n : Nat) :
    (type.inArrays m).inArrays n = type.inArrays (m + n) := by
  induction n with
  | zero => rfl
  | succ n ih => exact congrArg PropertyType.arrayOf ih

namespace Classified

/-- Whether an override leaves the arrays of a validator alone: there is none, or it goes into a shape. -/
def KeepsArrays (x : Classified) (o? : Option Override) : Prop :=
  ∀ o, o? = some o → ∃ properties arrays entries, x = .nested properties arrays ∧ o = .object entries

theorem KeepsArrays.eq_none {x : Classified} {o? : Option Override} (h : x.KeepsArrays o?)
    (hx : ∀ properties arrays, x ≠ .nested properties arrays) : o? = none := by
  cases o? with
  | none => rfl
  | some o =>
      obtain ⟨properties, arrays, _, hnested, -⟩ := h o rfl
      exact absurd hnested (hx properties arrays)

/-- The overrides for the properties of a shape: the entries of an object. -/
def overridesInside : Option Override → Entries Override
  | some (.object entries) => entries
  | _ => []

theorem mergeAll_eq_filterMap (properties : List (String × DeclaredProperty Classified))
    (overrides : Entries Override) :
    mergeAll properties overrides = properties.filterMap fun (key, p) =>
      (merge p.entry (overrides.get? key)).map fun type => (key, { type, required := p.required }) := by
  induction properties with
  | nil => rw [mergeAll, List.filterMap_nil]
  | cons property rest ih =>
      obtain ⟨key, p⟩ := property
      rw [mergeAll, List.filterMap_cons, ih]
      dsimp only
      cases merge p.entry (overrides.get? key) <;> rfl

theorem KeepsArrays.nested {properties : List (String × DeclaredProperty Classified)} {arrays : Nat}
    {o? : Option Override} (h : KeepsArrays (.nested properties arrays) o?) (arrays' : Nat) :
    KeepsArrays (.nested properties arrays') o? := by
  intro o ho
  obtain ⟨_, _, entries, -, rfl⟩ := h o ho
  exact ⟨properties, arrays', entries, rfl, rfl⟩

/-- A shape is kept as its shape in all of its arrays: of its properties those that keep a type, in their order and
with their required marks. -/
theorem merge_nested {properties : List (String × DeclaredProperty Classified)} {arrays : Nat} {o? : Option Override}
    (h : KeepsArrays (.nested properties arrays) o?) :
    merge (.nested properties arrays) o? =
      some ((PropertyType.shape (properties.filterMap fun (key, p) =>
        (merge p.entry ((overridesInside o?).get? key)).map fun type =>
          (key, { type, required := p.required }))).inArrays arrays) := by
  rw [← mergeAll_eq_filterMap]
  cases o? with
  | none => simp only [merge, overridesInside]
  | some o =>
      obtain ⟨_, _, entries, -, rfl⟩ := h o rfl
      rw [merge, overridesInside]

/-- The arrays around a validator are the arrays around its type in the model. -/
theorem merge_inArrays {x : Classified} {o? : Option Override} (h : x.KeepsArrays o?) (n : Nat) :
    merge (x.inArrays n) o? = (merge x o?).map (·.inArrays n) := by
  cases x with
  | nested properties arrays =>
      rw [inArrays, merge_nested (h.nested _), merge_nested h, Option.map_some, PropertyType.inArrays_inArrays]
  | valid type =>
      obtain rfl := h.eq_none (by simp)
      rfl
  | invalid v =>
      obtain rfl := h.eq_none (by simp)
      rfl

/-- Whatever is no fault is kept in its arrays. -/
theorem exists_merge_inArrays {x : Classified} {o? : Option Override} (h : x.KeepsArrays o?)
    (hx : ∀ v, x ≠ .invalid v) (n : Nat) :
    ∃ type, merge x o? = some type ∧ merge (x.inArrays n) o? = some (type.inArrays n) := by
  obtain ⟨type, htype⟩ : ∃ type, merge x o? = some type := by
    cases x with
    | nested => exact ⟨_, merge_nested h⟩
    | valid type =>
        obtain rfl := h.eq_none (by simp)
        exact ⟨type, rfl⟩
    | invalid v => exact absurd rfl (hx v)
  exact ⟨type, htype, by rw [merge_inArrays h, htype, Option.map_some]⟩

/-- Wrappers are transparent: a validator in any stack of them is that validator inside as many arrays as the
stack has, in what is read and in the model. What is inside is not lost on the way: `exists_merge_inArrays` gives its
type, and `merge_nested` what the type of a shape is. -/
theorem ofValue_wrapped (fileName text : String) (r : Resolver) (field : String) (reader : ShapeReader)
    {ws : List Wrapper} {outer inner : Child} (hws : (Module.parse fileName text).arena.WrapsAll r ws outer inner)
    (hinner : ∀ w e, ¬ (Module.parse fileName text).arena.Wraps r w inner e) :
    let a := (Module.parse fileName text).arena
    let arrays := ws.count .array
    ofValue a r field reader outer =
        (fun x => (x.1.inArrays arrays, Wrapper.isRequired ws)) <$> ofValue a r field reader inner ∧
      ∀ x o?, KeepsArrays x o? → merge (x.inArrays arrays) o? = (merge x o?).map (·.inArrays arrays) := by
  have hforest := Module.forest_arena fileName text
  exact ⟨ofValue_of_wrapsAll field reader hforest hws hinner, fun _ _ h => merge_inArrays h _⟩

/-- A validator in every kind of wrapper, with a required mark on either side of the array. -/
def wrappedText : String :=
  "x = PropTypes.arrayOf((PropTypes.any).isRequired).isRequired"

def wrapped : Module :=
  .parse "A.js" wrappedText

def wrappedResolver : Resolver :=
  Scope.resolver (.ofModule wrapped) wrapped.arena

def wrappers : List Wrapper := [.required, .array, .required, .parentheses]

theorem wrapped_forms :
    wrapped.arena.form? (some 12) = some (.propertyAccess (some 10) (some 11) false) ∧
    wrapped.arena.identifierText (some 11) = some requiredWord ∧
    wrapped.arena.form? (some 10) = some (.call (some 3) [some 9] false) ∧
    wrapped.arena.accessChain (some 3) = some ["PropTypes", "arrayOf"] ∧
    wrapped.arena.form? (some 9) = some (.propertyAccess (some 7) (some 8) false) ∧
    wrapped.arena.identifierText (some 8) = some requiredWord ∧
    wrapped.arena.form? (some 7) = some (.parenthesized (some 6)) ∧
    wrapped.arena.form? (some 6) = some (.propertyAccess (some 4) (some 5) false) ∧
    wrapped.arena.identifierText (some 5) = some "any" := by
  decide +kernel

theorem ofValue_wrapped_any :
    wrapped.arena.WrapsAll wrappedResolver wrappers (some 12) (some 6) ∧
      (∀ w e, ¬ wrapped.arena.Wraps wrappedResolver w (some 6) e) ∧
      ∀ reader,
        ofValue wrapped.arena wrappedResolver "propTypes" reader (some 12) =
          (fun x => (x.1.inArrays 1, true)) <$>
            ofValue wrapped.arena wrappedResolver "propTypes" reader (some 6) ∧
        ∀ x o?, KeepsArrays x o? → merge (x.inArrays 1) o? = (merge x o?).map (·.inArrays 1) := by
  obtain ⟨houter, houterName, hcall, hchain, hmark, hmarkName, hparens, hinner, hany⟩ := wrapped_forms
  have hns : wrappedResolver.isValidatorNamespace "PropTypes" = true := by
    simp [wrappedResolver, Scope.resolver, Scope.isValidatorNamespace]
  have hws : wrapped.arena.WrapsAll wrappedResolver wrappers (some 12) (some 6) :=
    .cons (.required houter houterName) <| .cons (.array hcall hchain hns) <|
      .cons (.required hmark hmarkName) <| .cons (.parentheses hparens) .nil
  have hbare : ∀ w e, ¬ wrapped.arena.Wraps wrappedResolver w (some 6) e := by
    rintro w e (h | ⟨h, hname⟩ | h)
    · cases hinner.symm.trans h
    · cases hinner.symm.trans h
      exact absurd (hany.symm.trans hname) (by decide)
    · cases hinner.symm.trans h
  have harrays : wrappers.count .array = 1 := by decide
  have hrequired : Wrapper.isRequired wrappers = true := by decide
  refine ⟨hws, hbare, fun reader => ?_⟩
  have hread := ofValue_wrapped "A.js" wrappedText wrappedResolver "propTypes" reader hws hbare
  rwa [harrays, hrequired] at hread

end Classified

end PropContract
