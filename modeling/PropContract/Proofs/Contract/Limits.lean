import Mathlib.Order.MinMax
import PropContract.Proofs.Contract.Cycles
import PropContract.Proofs.Entries
import PropContract.Proofs.Parse.Tree

/-!
# Shapes are expanded within limits

A run of the classification, step by step and without a budget: which shapes it meets, in which state,
and what becomes of them. Every module has such a run, and none expands too deep or too much.
-/

namespace PropContract

/-- The elements of an object literal; there are none of anything else. -/
def Arena.objectElements (a : Arena) (object : Child) : List NodeId :=
  match a.form? object with
  | some (.objectLiteral elements) => elements
  | _ => []

/-- Whether a shape is written in place, or is an object that is not being expanded already. -/
def ShapeTarget.Fresh (s : Expansion) : ShapeTarget → Prop
  | .inPlace _ => True
  | .named object => object ∉ s.active

namespace Classified

/-! ## Shapes inside entries -/

mutual

/-- How many shapes an entry holds, at all depths. -/
def shapes : Classified → Nat
  | .nested properties _ => shapesAll properties + 1
  | _ => 0

def shapesAll : List (String × DeclaredProperty Classified) → Nat
  | [] => 0
  | (_, p) :: rest => p.entry.shapes + shapesAll rest

end

mutual

/-- How many shapes lie inside each other, at most. -/
def levels : Classified → Nat
  | .nested properties _ => levelsAll properties + 1
  | _ => 0

def levelsAll : List (String × DeclaredProperty Classified) → Nat
  | [] => 0
  | (_, p) :: rest => max p.entry.levels (levelsAll rest)

end

@[simp] theorem shapes_inArray (c : Classified) : c.inArray.shapes = c.shapes := by
  cases c <;> simp [inArray, shapes]

@[simp] theorem levels_inArray (c : Classified) : c.inArray.levels = c.levels := by
  cases c <;> simp [inArray, levels]

variable {properties : List (String × DeclaredProperty Classified)} {key : String}
  {p : DeclaredProperty Classified}

theorem shapesAll_put_le :
    shapesAll (Entries.put properties key p) ≤ shapesAll properties + p.entry.shapes := by
  induction properties with
  | nil => simp [Entries.put, shapesAll]
  | cons property rest ih =>
      obtain ⟨k, q⟩ := property
      rw [Entries.put]
      split
      · simp only [shapesAll]
        omega
      · simp only [shapesAll]
        omega

theorem levelsAll_put_le :
    levelsAll (Entries.put properties key p) ≤ max (levelsAll properties) p.entry.levels := by
  induction properties with
  | nil => simp [Entries.put, levelsAll]
  | cons property rest ih =>
      obtain ⟨k, q⟩ := property
      rw [Entries.put]
      split
      · simp only [levelsAll]
        omega
      · simp only [levelsAll]
        omega

theorem shapesAll_append (properties properties' : List (String × DeclaredProperty Classified)) :
    shapesAll (properties ++ properties') = shapesAll properties + shapesAll properties' := by
  induction properties with
  | nil => simp [shapesAll]
  | cons property rest ih => simp only [List.cons_append, shapesAll, ih, Nat.add_assoc]

theorem levelsAll_append (properties properties' : List (String × DeclaredProperty Classified)) :
    levelsAll (properties ++ properties') = max (levelsAll properties) (levelsAll properties') := by
  induction properties with
  | nil => simp [levelsAll]
  | cons property rest ih => simp only [List.cons_append, levelsAll, ih, Nat.max_assoc]

/-- What is overwritten under a repeated name only takes shapes away. -/
theorem shapesAll_ofList_le : shapesAll (Entries.ofList properties) ≤ shapesAll properties := by
  induction properties using List.reverseRecOn with
  | nil => exact Nat.le_refl _
  | append_singleton properties property ih =>
      obtain ⟨key, p⟩ := property
      rw [Entries.ofList_concat, shapesAll_append]
      exact shapesAll_put_le.trans (Nat.add_le_add_right ih _)

theorem levelsAll_ofList_le : levelsAll (Entries.ofList properties) ≤ levelsAll properties := by
  induction properties using List.reverseRecOn with
  | nil => exact Nat.le_refl _
  | append_singleton properties property ih =>
      obtain ⟨key, p⟩ := property
      rw [Entries.ofList_concat, levelsAll_append, levelsAll, levelsAll, Nat.max_zero]
      exact levelsAll_put_le.trans (max_le_max_right _ ih)

/-! ## Runs -/

/-- A shape that the classification comes to, inside `depth` others: where, in which state, and what
it is taken for. -/
structure Meeting where
  depth : Nat
  target : ShapeTarget
  before : Expansion
  result : Classified

/-- Whether a shape at this place is past a limit. -/
def PastLimit (depth : Nat) (s : Expansion) : Prop :=
  maxShapeDepth ≤ depth ∨ maxShapeExpansions ≤ s.expanded

section

variable (a : Arena) (r : Resolver) (field : String)

mutual

/-- A run on a validator, up to the state after it, with the shapes that it meets on the way. -/
inductive ValueRun :
    (depth : Nat) → Child → Expansion → Classified × Bool → Expansion → List Meeting → Prop
  /-- A validator without a shape inside -/
  | plain {depth e s c} (h : ∀ reader value, ofLeaf a r field reader value (a.stripRequired e).1 = pure c) :
      ValueRun depth e s (c, (a.stripRequired e).2) s []
  | array {depth e s callee arguments optional argument element s' log}
      (hform : a.form? (a.stripRequired e).1 = some (.call callee arguments optional))
      (hname : validatorName? a r callee = some "arrayOf")
      (hargument : firstArgument arguments = some argument)
      (h : ValueRun depth (some argument) s element s' log) :
      ValueRun depth e s (element.1.inArray, (a.stripRequired e).2) s' log
  | shape {depth e s callee arguments optional target c s' log}
      (hform : a.form? (a.stripRequired e).1 = some (.call callee arguments optional))
      (hname : validatorName? a r callee = some "shape" ∨ validatorName? a r callee = some "exact")
      (htarget : argumentTargets a r (firstArgument arguments) = [target])
      (h : TargetRun depth target s c s' log) :
      ValueRun depth e s (c, (a.stripRequired e).2) s' log

/-- A run on the elements of an object, in their order. -/
inductive ElementsRun : (depth : Nat) → List NodeId → Expansion →
    List (String × DeclaredProperty Classified) → Expansion → List Meeting → Prop
  | nil {depth s} : ElementsRun depth [] s [] s []
  /-- An element without a validator to classify -/
  | plain {depth s property properties s' log} {element : NodeId} {rest : List NodeId}
      (hform : ∀ name value, a.form? (some element) = some (.propertyAssignment name value) →
        a.propertyNameText (a.memberName (some element)) = none)
      (h : ∀ reader, ofElement a r field reader element = pure property)
      (hrest : ElementsRun depth rest s properties s' log) :
      ElementsRun depth (element :: rest) s (property.toList ++ properties) s' log
  | assignment {depth s key name value entry s₁ log₁ properties s' log₂}
      {element : NodeId} {rest : List NodeId}
      (hkey : a.propertyNameText (a.memberName (some element)) = some key)
      (hform : a.form? (some element) = some (.propertyAssignment name value))
      (h : ValueRun depth value s entry s₁ log₁)
      (hrest : ElementsRun depth rest s₁ properties s' log₂) :
      ElementsRun depth (element :: rest) s
        ((key, { node := element, required := entry.2, entry := entry.1 }) :: properties) s'
        (log₁ ++ log₂)

/-- A run on a shape, which is met here. -/
inductive TargetRun :
    (depth : Nat) → ShapeTarget → Expansion → Classified → Expansion → List Meeting → Prop
  | inPlace {depth object s c s' log} (h : ObjectRun depth object s c s' log) :
      TargetRun depth (.inPlace object) s c s' (⟨depth, .inPlace object, s, c⟩ :: log)
  /-- An object inside itself -/
  | again {depth object s} (h : object ∈ s.active) :
      TargetRun depth (.named object) s (.invalid .illegalReference)
        { s with cyclic := s.cyclic.insert object }
        [⟨depth, .named object, s, .invalid .illegalReference⟩]
  | named {depth object s c s' log result} (hactive : object ∉ s.active)
      (h : ObjectRun depth object { s with active := object :: s.active } c s' log)
      (hresult : result = if object ∈ s'.cyclic then .invalid .illegalReference else c) :
      TargetRun depth (.named object) s result
        { s' with active := s'.active.erase object, cyclic := s'.cyclic.erase object }
        (⟨depth, .named object, s, result⟩ :: log)

/-- A run on the object of a shape. Only here a shape is expanded, with all its elements, or refused. -/
inductive ObjectRun :
    (depth : Nat) → NodeId → Expansion → Classified → Expansion → List Meeting → Prop
  | past {depth object s} (h : PastLimit depth s) :
      ObjectRun depth object s (.invalid .illegalCall) { s with limited := true } []
  | expand {depth object s properties s' log} (hlimit : ¬ PastLimit depth s)
      (h : ElementsRun (depth + 1) (a.objectElements (some object))
        { s with expanded := s.expanded + 1 } properties s' log) :
      ObjectRun depth object s (.nested (Entries.ofList properties) 0) s' log

end

/-- A run of the classification of a props value. -/
def ClassificationRun (propTypes : Child) (tree : ClassifiedTree) (s : Expansion) (log : List Meeting) :
    Prop :=
  ∃ properties, tree = Entries.ofList properties ∧
    ElementsRun a r field 0 (a.objectElements (a.unparenthesized propTypes)) {} properties s log

end

/-! ## What is read by itself -/

/-- Whether an entry is no shape. -/
def Flat (c : Classified) : Prop := c.shapes = 0 ∧ c.levels = 0

theorem flat_valid (type : PropertyType) : Flat (.valid type) := by simp [Flat, shapes, levels]

theorem flat_invalid (violation : Violation) : Flat (.invalid violation) := by simp [Flat, shapes, levels]

section

variable (a : Arena) (r : Resolver) (field : String)

theorem flat_ofMember (e : Child) : (ofMember a r e).Flat := by
  unfold ofMember
  repeat' split
  all_goals first | exact flat_valid _ | exact flat_invalid _

theorem flat_ofObjectEnum (callee : Child) (arguments : List Child) :
    (ofObjectEnum a r callee arguments).Flat := by
  unfold ofObjectEnum
  dsimp only
  repeat' split
  all_goals first | exact flat_valid _ | exact flat_invalid _

theorem flat_ofOneOf (argument : Child) : (ofOneOf a r argument).Flat := by
  unfold ofOneOf
  repeat' split
  all_goals first | exact flat_valid _ | exact flat_invalid _ | exact flat_ofObjectEnum a r _ _

/-- The argument of a shape is read by itself, or leads to one object. -/
theorem ofShape_cases (argument : Child) :
    (∃ c, Flat c ∧ argumentTargets a r argument = [] ∧ ∀ reader, ofShape a r field reader argument = pure c) ∨
      ∃ target, argumentTargets a r argument = [target] ∧
        ∀ reader, ofShape a r field reader argument = reader.read target := by
  unfold argumentTargets ofShape
  rcases a.unparenthesized argument with - | id
  · exact .inl ⟨_, flat_valid _, rfl, fun _ => rfl⟩
  simp only
  rcases a.form? (some id) with - | form
  · exact .inl ⟨_, flat_valid _, rfl, fun _ => rfl⟩
  cases form with
  | objectLiteral elements => exact .inr ⟨.inPlace id, rfl, fun _ => rfl⟩
  | identifier name =>
      simp only
      cases r.resolve name with
      | objectLiteral object => exact .inr ⟨.named object, rfl, fun _ => rfl⟩
      | _ => exact .inl ⟨_, flat_invalid _, rfl, fun _ => rfl⟩
  | propertyAccess target name optional =>
      simp only
      repeat' split
      all_goals first
        | exact .inl ⟨_, flat_valid _, by trivial, fun _ => rfl⟩
        | exact .inl ⟨_, flat_invalid _, by trivial, fun _ => rfl⟩
  | _ => exact .inl ⟨_, flat_invalid _, rfl, fun _ => rfl⟩

/-- A validator is read by itself, as an array, or as a shape. -/
theorem ofLeaf_cases (e : Child) :
    (∃ c, Flat c ∧ ∀ reader value, ofLeaf a r field reader value e = pure c) ∨
    (∃ callee arguments optional argument, a.form? e = some (.call callee arguments optional) ∧
      validatorName? a r callee = some "arrayOf" ∧ firstArgument arguments = some argument ∧
      ∀ reader value, ofLeaf a r field reader value e = (fun v => v.1.inArray) <$> value (some argument)) ∨
    ∃ callee arguments optional target, a.form? e = some (.call callee arguments optional) ∧
      (validatorName? a r callee = some "shape" ∨ validatorName? a r callee = some "exact") ∧
      argumentTargets a r (firstArgument arguments) = [target] ∧
      ∀ reader value, ofLeaf a r field reader value e = reader.read target := by
  unfold ofLeaf
  rcases hform : a.form? e with - | form
  · exact .inl ⟨_, flat_invalid _, fun _ _ => rfl⟩
  cases form with
  | call callee arguments optional =>
      simp only [ofCall]
      split
      · exact .inl ⟨_, flat_invalid _, fun _ _ => rfl⟩
      · rename_i hname
        rcases hargument : firstArgument arguments with - | argument
        · exact .inl ⟨_, flat_invalid _, fun _ _ => rfl⟩
        · exact .inr (.inl ⟨callee, arguments, optional, argument, rfl, hname, hargument, fun _ _ => rfl⟩)
      · exact .inl ⟨_, flat_ofOneOf a r _, fun _ _ => rfl⟩
      · rename_i hname
        obtain ⟨c, hc, -, h⟩ | ⟨target, htarget, h⟩ := ofShape_cases a r field (firstArgument arguments)
        · exact .inl ⟨c, hc, fun reader _ => h reader⟩
        · exact .inr (.inr ⟨callee, arguments, optional, target, rfl, .inl hname, htarget,
            fun reader _ => h reader⟩)
      · rename_i hname
        obtain ⟨c, hc, -, h⟩ | ⟨target, htarget, h⟩ := ofShape_cases a r field (firstArgument arguments)
        · exact .inl ⟨c, hc, fun reader _ => h reader⟩
        · exact .inr (.inr ⟨callee, arguments, optional, target, rfl, .inr hname, htarget,
            fun reader _ => h reader⟩)
      · exact .inl ⟨_, flat_invalid _, fun _ _ => rfl⟩
  | propertyAccess => exact .inl ⟨_, flat_ofMember a r e, fun _ _ => rfl⟩
  | elementAccess => exact .inl ⟨_, flat_ofMember a r e, fun _ _ => rfl⟩
  | _ => exact .inl ⟨_, flat_invalid _, fun _ _ => rfl⟩

/-- An element is an assignment to a written name, or has no validator. -/
theorem ofElement_cases (element : NodeId) :
    (∃ property, (∀ p ∈ property, Flat p.2.entry) ∧
      (∀ name value, a.form? (some element) = some (.propertyAssignment name value) →
        a.propertyNameText (a.memberName (some element)) = none) ∧
      ∀ reader, ofElement a r field reader element = pure property) ∨
    ∃ key name value, a.propertyNameText (a.memberName (some element)) = some key ∧
      a.form? (some element) = some (.propertyAssignment name value) ∧
      ∀ reader, ofElement a r field reader element =
        (fun v : Classified × Bool =>
          some (key, { node := element, required := v.2, entry := v.1 })) <$> ofValue a r field reader value := by
  unfold ofElement
  rcases hkey : a.propertyNameText (a.memberName (some element)) with - | key
  · exact .inl ⟨none, by simp, fun _ _ _ => rfl, fun _ => rfl⟩
  simp only
  rcases hform : a.form? (some element) with - | form
  · exact .inl ⟨none, by simp, by simp, fun _ => rfl⟩
  cases form with
  | propertyAssignment name value => exact .inr ⟨key, name, value, rfl, rfl, fun _ => rfl⟩
  | shorthandProperty | methodDeclaration =>
      exact .inl ⟨some _, by rintro _ ⟨⟩; exact flat_invalid _, by simp, fun _ => rfl⟩
  | _ => exact .inl ⟨none, by simp, by simp, fun _ => rfl⟩

/-- An object is read element by element; anything but an object literal has none. -/
theorem ofObject_eq_ofElements (reader : ShapeReader) (object : NodeId) :
    ofObject a r field reader object =
      Entries.ofList <$> ofElements a r field reader (a.objectElements (some object)) := by
  unfold Arena.objectElements ofObject
  rcases a.form? (some object) with - | form
  · rfl
  cases form with
  | objectLiteral elements => rfl
  | _ => rfl

end

/-! ## A run is determined by where it begins -/

section

variable {a : Arena} {r : Resolver} {field : String} {e callee : Child} {arguments : List Child} {optional : Bool}
  {target : ShapeTarget} {c : Classified}

theorem ofLeaf_shape (hform : a.form? e = some (.call callee arguments optional))
    (hname : validatorName? a r callee = some "shape" ∨ validatorName? a r callee = some "exact")
    (htarget : argumentTargets a r (firstArgument arguments) = [target]) (reader : ShapeReader)
    (value : Child → Classifier (Classified × Bool)) : ofLeaf a r field reader value e = reader.read target := by
  have hshape : ofLeaf a r field reader value e = ofShape a r field reader (firstArgument arguments) := by
    rw [ofLeaf, hform]
    rcases hname with hname | hname <;> simp only [ofCall, hname]
  obtain ⟨-, -, hnone, -⟩ | ⟨target', htarget', hread⟩ := ofShape_cases a r field (firstArgument arguments)
  · cases hnone.symm.trans htarget
  · obtain rfl := List.singleton_inj.mp (htarget'.symm.trans htarget)
    exact hshape.trans (hread reader)

theorem ofLeaf_array {argument : NodeId} (hform : a.form? e = some (.call callee arguments optional))
    (hname : validatorName? a r callee = some "arrayOf") (hargument : firstArgument arguments = some argument)
    (reader : ShapeReader) (value : Child → Classifier (Classified × Bool)) :
    ofLeaf a r field reader value e = (fun v => v.1.inArray) <$> value (some argument) := by
  rw [ofLeaf, hform]
  simp only [ofCall, hname, hargument]
  rfl

/-- A reader to which every shape is past a limit. It leaves a mark where it reads. -/
def refusing : ShapeReader := ⟨fun _ => pastLimit, fun _ => pastLimit⟩

def refused (_ : Child) : Classifier (Classified × Bool) := (·, false) <$> pastLimit

/-- A shape with a target is not read by itself: what becomes of the target makes a difference. -/
theorem not_plain_of_shape (hform : a.form? e = some (.call callee arguments optional))
    (hname : validatorName? a r callee = some "shape" ∨ validatorName? a r callee = some "exact")
    (htarget : argumentTargets a r (firstArgument arguments) = [target]) :
    ¬ ∀ reader value, ofLeaf a r field reader value e = pure c := by
  intro h
  have hread := h refusing refused
  rw [ofLeaf_shape hform hname htarget] at hread
  have hlimited := congrArg (fun m : Classifier Classified => (m.run {}).2.limited) hread
  cases target <;> cases hlimited

/-- Nor is an array with an element. -/
theorem not_plain_of_array {argument : NodeId} (hform : a.form? e = some (.call callee arguments optional))
    (hname : validatorName? a r callee = some "arrayOf") (hargument : firstArgument arguments = some argument) :
    ¬ ∀ reader value, ofLeaf a r field reader value e = pure c := by
  intro h
  have hread := h refusing refused
  rw [ofLeaf_array hform hname hargument] at hread
  have hlimited := congrArg (fun m : Classifier Classified => (m.run {}).2.limited) hread
  cases hlimited

theorem pure_injective {α : Type} {x y : α} (h : (pure x : Classifier α) = pure y) : x = y :=
  congrArg (fun m : Classifier α => (m.run {}).1) h

theorem ne_arrayOf (hname : validatorName? a r callee = some "shape" ∨ validatorName? a r callee = some "exact") :
    validatorName? a r callee ≠ some "arrayOf" := by
  rcases hname with hname | hname <;> rw [hname] <;> decide

/-- A shape is met first of all that its run meets. -/
theorem TargetRun.exists_log {depth : Nat} {s s' : Expansion} {log : List Meeting}
    (h : TargetRun a r field depth target s c s' log) : ∃ rest, log = ⟨depth, target, s, c⟩ :: rest := by
  cases h with
  | inPlace => exact ⟨_, rfl⟩
  | again => exact ⟨_, rfl⟩
  | named => exact ⟨_, rfl⟩

/-- A shape with a target is met where a run comes to it, in the state that the run is in. -/
theorem ValueRun.exists_log {depth : Nat} {s s' : Expansion} {entry : Classified × Bool} {log : List Meeting}
    (h : ValueRun a r field depth e s entry s' log)
    (hform : a.form? (a.stripRequired e).1 = some (.call callee arguments optional))
    (hname : validatorName? a r callee = some "shape" ∨ validatorName? a r callee = some "exact")
    (htarget : argumentTargets a r (firstArgument arguments) = [target]) :
    ∃ rest, log = ⟨depth, target, s, entry.1⟩ :: rest := by
  cases h with
  | plain h => exact absurd h (not_plain_of_shape hform hname htarget)
  | array hform' hname' =>
      cases hform.symm.trans hform'
      exact absurd hname' (ne_arrayOf hname)
  | shape hform' _ htarget' h =>
      cases hform.symm.trans hform'
      obtain rfl := List.singleton_inj.mp (htarget.symm.trans htarget')
      exact h.exists_log

/-- Whether all runs from one place come to the same end and meet the same shapes on the way. -/
def EndsOnly {α : Type} (run : α → Expansion → List Meeting → Prop) (x : α) (s : Expansion) (log : List Meeting) :
    Prop :=
  ∀ x' s' log', run x' s' log' → x' = x ∧ s' = s ∧ log' = log

mutual

theorem ValueRun.unique {depth : Nat} {e : Child} {s s' : Expansion} {entry : Classified × Bool}
    {log : List Meeting} : ValueRun a r field depth e s entry s' log →
      EndsOnly (ValueRun a r field depth e s) entry s' log
  | .plain h => by
      intro _ _ _ h'
      cases h' with
      | plain h' =>
          obtain rfl := pure_injective ((h' refusing refused).symm.trans (h refusing refused))
          exact ⟨rfl, rfl, rfl⟩
      | array hform hname hargument => exact absurd h (not_plain_of_array hform hname hargument)
      | shape hform hname htarget => exact absurd h (not_plain_of_shape hform hname htarget)
  | .array hform hname hargument h => by
      have ih := h.unique
      intro _ _ _ h'
      cases h' with
      | plain h' => exact absurd h' (not_plain_of_array hform hname hargument)
      | array hform' _ hargument' h' =>
          cases hform'.symm.trans hform
          cases hargument'.symm.trans hargument
          obtain ⟨rfl, rfl, rfl⟩ := ih _ _ _ h'
          exact ⟨rfl, rfl, rfl⟩
      | shape hform' hname' =>
          cases hform'.symm.trans hform
          exact absurd hname (ne_arrayOf hname')
  | .shape hform hname htarget h => by
      have ih := h.unique
      intro _ _ _ h'
      cases h' with
      | plain h' => exact absurd h' (not_plain_of_shape hform hname htarget)
      | array hform' hname' =>
          cases hform'.symm.trans hform
          exact absurd hname' (ne_arrayOf hname)
      | shape hform' _ htarget' h' =>
          cases hform'.symm.trans hform
          cases htarget'.symm.trans htarget
          obtain ⟨rfl, rfl, rfl⟩ := ih _ _ _ h'
          exact ⟨rfl, rfl, rfl⟩

theorem ElementsRun.unique {depth : Nat} {elements : List NodeId} {s s' : Expansion}
    {properties : List (String × DeclaredProperty Classified)} {log : List Meeting} :
    ElementsRun a r field depth elements s properties s' log →
      EndsOnly (ElementsRun a r field depth elements s) properties s' log
  | .nil => by
      intro _ _ _ h'
      cases h'
      exact ⟨rfl, rfl, rfl⟩
  | .plain hform h hrest => by
      have ih := hrest.unique
      intro _ _ _ h'
      cases h' with
      | plain _ h' hrest' =>
          obtain rfl := pure_injective ((h' refusing).symm.trans (h refusing))
          obtain ⟨rfl, rfl, rfl⟩ := ih _ _ _ hrest'
          exact ⟨rfl, rfl, rfl⟩
      | assignment hkey hform' => cases hkey.symm.trans (hform _ _ hform')
  | .assignment hkey hform h hrest => by
      have ih := h.unique
      have ihrest := hrest.unique
      intro _ _ _ h'
      cases h' with
      | plain hform' => cases hkey.symm.trans (hform' _ _ hform)
      | assignment hkey' hform' h' hrest' =>
          cases hform'.symm.trans hform
          cases hkey'.symm.trans hkey
          obtain ⟨rfl, rfl, rfl⟩ := ih _ _ _ h'
          obtain ⟨rfl, rfl, rfl⟩ := ihrest _ _ _ hrest'
          exact ⟨rfl, rfl, rfl⟩

theorem TargetRun.unique {depth : Nat} {target : ShapeTarget} {s s' : Expansion} {c : Classified}
    {log : List Meeting} : TargetRun a r field depth target s c s' log →
      EndsOnly (TargetRun a r field depth target s) c s' log
  | .inPlace h => by
      have ih := h.unique
      intro _ _ _ h'
      cases h' with
      | inPlace h' =>
          obtain ⟨rfl, rfl, rfl⟩ := ih _ _ _ h'
          exact ⟨rfl, rfl, rfl⟩
  | .again hactive => by
      intro _ _ _ h'
      cases h' with
      | again => exact ⟨rfl, rfl, rfl⟩
      | named hactive' => exact absurd hactive hactive'
  | .named hactive h hresult => by
      have ih := h.unique
      intro _ _ _ h'
      cases h' with
      | again hactive' => exact absurd hactive' hactive
      | named _ h' hresult' =>
          obtain ⟨rfl, rfl, rfl⟩ := ih _ _ _ h'
          obtain rfl := hresult'.trans hresult.symm
          exact ⟨rfl, rfl, rfl⟩

theorem ObjectRun.unique {depth : Nat} {object : NodeId} {s s' : Expansion} {c : Classified}
    {log : List Meeting} : ObjectRun a r field depth object s c s' log →
      EndsOnly (ObjectRun a r field depth object s) c s' log
  | .past hpast => by
      intro _ _ _ h'
      cases h' with
      | past => exact ⟨rfl, rfl, rfl⟩
      | expand hlimit => exact absurd hpast hlimit
  | .expand hlimit h => by
      have ih := h.unique
      intro _ _ _ h'
      cases h' with
      | past hpast => exact absurd hpast hlimit
      | expand _ h' =>
          obtain ⟨rfl, rfl, rfl⟩ := ih _ _ _ h'
          exact ⟨rfl, rfl, rfl⟩

end

/-- A classification has one run only, so that the shapes it meets are all the shapes there are to meet. -/
theorem ClassificationRun.unique {propTypes : Child} {tree : ClassifiedTree} {s : Expansion} {log : List Meeting}
    (h : ClassificationRun a r field propTypes tree s log) :
    EndsOnly (ClassificationRun a r field propTypes) tree s log := by
  obtain ⟨properties, rfl, h⟩ := h
  rintro _ _ _ ⟨properties', rfl, h'⟩
  obtain ⟨rfl, hstate, hlog⟩ := h.unique _ _ _ h'
  exact ⟨rfl, hstate, hlog⟩

end

/-! ## What a run keeps -/

/-- What a run in `s` up to `s'` at some depth keeps, where it gives `count` shapes in `height` levels. -/
structure KeepsLimits (depth : Nat) (s s' : Expansion) (count height : Nat) (log : List Meeting) :
    Prop where
  active : s'.active = s.active
  watched : WellWatched s → WellWatched s'
  expanded : s.expanded ≤ maxShapeExpansions → s'.expanded ≤ maxShapeExpansions
  counted : s.expanded + count ≤ s'.expanded
  height : depth ≤ maxShapeDepth → depth + height ≤ maxShapeDepth
  met : WellWatched s → ∀ x ∈ log, PastLimit x.depth x.before → x.target.Fresh x.before →
    x.result = .invalid .illegalCall

namespace KeepsLimits

variable {depth count height count' height' : Nat} {s s₁ s' : Expansion} {log log' : List Meeting}

theorem refl (depth : Nat) (s : Expansion) : KeepsLimits depth s s 0 0 [] :=
  ⟨rfl, id, id, Nat.le_refl _, id, by simp⟩

theorem seq (h : KeepsLimits depth s s₁ count height log)
    (h' : KeepsLimits depth s₁ s' count' height' log') :
    KeepsLimits depth s s' (count + count') (max height height') (log ++ log') where
  active := h'.active.trans h.active
  watched hw := h'.watched (h.watched hw)
  expanded hs := h'.expanded (h.expanded hs)
  counted := by have := h.counted; have := h'.counted; omega
  height hdepth := by have := h.height hdepth; have := h'.height hdepth; omega
  met hw x hx := by
    obtain hx | hx := List.mem_append.mp hx
    · exact h.met hw x hx
    · exact h'.met (h.watched hw) x hx

theorem meet {x : Meeting} (h : KeepsLimits depth s s' count height log)
    (hx : WellWatched s → PastLimit x.depth x.before → x.target.Fresh x.before →
      x.result = .invalid .illegalCall) : KeepsLimits depth s s' count height (x :: log) :=
  { h with met := fun hw => List.forall_mem_cons.mpr ⟨hx hw, h.met hw⟩ }

theorem mono (h : KeepsLimits depth s s' count height log) (hcount : count' ≤ count)
    (hheight : height' ≤ height) : KeepsLimits depth s s' count' height' log :=
  ⟨h.active, h.watched, h.expanded, (Nat.add_le_add_left hcount _).trans h.counted,
    fun hdepth => (Nat.add_le_add_left hheight _).trans (h.height hdepth), h.met⟩

/-- A shape within the limits counts for one more, and lies around what is in it. -/
theorem expand (hlimit : ¬ PastLimit depth s)
    (h : KeepsLimits (depth + 1) { s with expanded := s.expanded + 1 } s' count height log) :
    KeepsLimits depth s s' (count + 1) (height + 1) log := by
  obtain ⟨hdepth, hexpanded⟩ := not_or.mp hlimit
  refine ⟨h.active, fun hw => h.watched ⟨hw.active, hw.nodup⟩, fun _ => ?_, ?_, fun _ => ?_,
    fun hw => h.met ⟨hw.active, hw.nodup⟩⟩
  · exact h.expanded (Nat.lt_of_not_le hexpanded)
  · have := h.counted
    dsimp only at this
    omega
  · have := h.height (Nat.lt_of_not_le hdepth)
    omega

/-- An object is under watch while it is expanded. -/
theorem watch {object : NodeId}
    (h : KeepsLimits depth { s with active := object :: s.active } s' count height log) :
    KeepsLimits depth s { s' with active := s'.active.erase object, cyclic := s'.cyclic.erase object }
      count height log := by
  have herase : s'.active.erase object = s.active := by rw [h.active, List.erase_cons_head]
  exact ⟨herase, fun hw => (h.watched (hw.watch object)).erase object, h.expanded, h.counted, h.height,
    fun hw => h.met (hw.watch object)⟩

end KeepsLimits

section

variable {a : Arena} {r : Resolver} {field : String} {depth : Nat} {s s' : Expansion}
  {log : List Meeting} {object : NodeId} {c : Classified}

/-- Past a limit nothing is expanded. -/
theorem ObjectRun.of_past (h : ObjectRun a r field depth object s c s' log) (hpast : PastLimit depth s) :
    c = .invalid .illegalCall ∧ s' = { s with limited := true } := by
  cases h with
  | past => exact ⟨rfl, rfl⟩
  | expand hlimit => exact absurd hpast hlimit

/-- A validator that is read in one way whatever is inside it is no shape. -/
theorem flat_of_ofLeaf {e : Child} (h : ∀ reader value, ofLeaf a r field reader value e = pure c) :
    c.Flat := by
  obtain ⟨c', hc', h'⟩ | ⟨_, _, _, _, hform, hname, hargument, -⟩ | ⟨_, _, _, _, hform, hname, htarget, -⟩ :=
    ofLeaf_cases a r field e
  · obtain rfl := pure_injective ((h' refusing refused).symm.trans (h refusing refused))
    exact hc'
  · exact absurd h (not_plain_of_array hform hname hargument)
  · exact absurd h (not_plain_of_shape hform hname htarget)

/-- An element that is no assignment to a written name holds no shape. -/
theorem flat_of_ofElement {element : NodeId} {property : Option (String × DeclaredProperty Classified)}
    (hform : ∀ name value, a.form? (some element) = some (.propertyAssignment name value) →
      a.propertyNameText (a.memberName (some element)) = none)
    (h : ∀ reader, ofElement a r field reader element = pure property) :
    shapesAll property.toList = 0 ∧ levelsAll property.toList = 0 := by
  obtain ⟨property', hflat, -, h'⟩ | ⟨key, name, value, hkey, hvalue, -⟩ :=
    ofElement_cases a r field element
  · obtain rfl := pure_injective ((h' refusing).symm.trans (h refusing))
    cases property' with
    | none => exact ⟨rfl, rfl⟩
    | some p =>
        obtain ⟨hshapes, hlevels⟩ := hflat p rfl
        simp [shapesAll, levelsAll, hshapes, hlevels]
  · rw [hform name value hvalue] at hkey
    exact nomatch hkey

mutual

theorem ValueRun.keepsLimits {depth : Nat} {e : Child} {s s' : Expansion} {entry : Classified × Bool}
    {log : List Meeting} : ValueRun a r field depth e s entry s' log →
      KeepsLimits depth s s' entry.1.shapes entry.1.levels log
  | .plain h => by
      obtain ⟨hshapes, hlevels⟩ := flat_of_ofLeaf h
      rw [hshapes, hlevels]
      exact .refl depth s
  | .array _ _ _ h => by
      rw [shapes_inArray, levels_inArray]
      exact h.keepsLimits
  | .shape _ _ _ h => h.keepsLimits

theorem ElementsRun.keepsLimits {depth : Nat} {elements : List NodeId} {s s' : Expansion}
    {properties : List (String × DeclaredProperty Classified)} {log : List Meeting} :
    ElementsRun a r field depth elements s properties s' log →
      KeepsLimits depth s s' (shapesAll properties) (levelsAll properties) log
  | .nil => .refl depth s
  | .plain hform h hrest => by
      obtain ⟨hshapes, hlevels⟩ := flat_of_ofElement hform h
      rw [shapesAll_append, levelsAll_append, hshapes, hlevels]
      exact (KeepsLimits.refl depth s).seq hrest.keepsLimits
  | .assignment _ _ h hrest => h.keepsLimits.seq hrest.keepsLimits

theorem TargetRun.keepsLimits {depth : Nat} {target : ShapeTarget} {s s' : Expansion} {c : Classified}
    {log : List Meeting} : TargetRun a r field depth target s c s' log →
      KeepsLimits depth s s' c.shapes c.levels log
  | .inPlace h => h.keepsLimits.meet fun _ hpast _ => (h.of_past hpast).1
  | .again h => by
      refine ⟨rfl, fun hw => hw.insert h, id, Nat.le_refl _, id, fun _ => ?_⟩
      rw [List.forall_mem_singleton]
      exact fun _ hfresh => absurd h hfresh
  | .named hactive h hresult => by
      subst hresult
      refine KeepsLimits.meet (KeepsLimits.mono h.keepsLimits.watch ?_ ?_) fun hw hpast _ => ?_
      · split
        · exact Nat.zero_le _
        · exact Nat.le_refl _
      · split
        · exact Nat.zero_le _
        · exact Nat.le_refl _
      · -- Nothing was expanded, so the object was not found on a cycle.
        obtain ⟨rfl, rfl⟩ := h.of_past hpast
        exact if_neg fun hcyclic => hactive (hw.active _ hcyclic)

theorem ObjectRun.keepsLimits {depth : Nat} {object : NodeId} {s s' : Expansion} {c : Classified}
    {log : List Meeting} : ObjectRun a r field depth object s c s' log →
      KeepsLimits depth s s' c.shapes c.levels log
  | .past h => ⟨rfl, fun hw => ⟨hw.active, hw.nodup⟩, id, Nat.le_refl _, id, by simp⟩
  | .expand hlimit h =>
      (h.keepsLimits.expand hlimit).mono (Nat.succ_le_succ shapesAll_ofList_le)
        (Nat.succ_le_succ levelsAll_ofList_le)

end

theorem ClassificationRun.withinLimits {propTypes : Child} {tree : ClassifiedTree}
    (h : ClassificationRun a r field propTypes tree s log) :
    levelsAll tree ≤ maxShapeDepth ∧ shapesAll tree ≤ maxShapeExpansions ∧
      ∀ x ∈ log, PastLimit x.depth x.before → x.target.Fresh x.before →
        x.result = .invalid .illegalCall := by
  obtain ⟨properties, rfl, h⟩ := h
  have hkeeps := h.keepsLimits
  have hheight := hkeeps.height (Nat.zero_le _)
  have hexpanded := hkeeps.expanded (Nat.zero_le _)
  have hcounted := hkeeps.counted
  refine ⟨levelsAll_ofList_le.trans ?_, shapesAll_ofList_le.trans ?_, hkeeps.met ⟨by simp, by simp⟩⟩
  · rwa [Nat.zero_add] at hheight
  · exact (Nat.le_add_left _ _).trans (hcounted.trans hexpanded)

end

/-! ## Every classification is a run -/

section

variable {a : Arena} {r : Resolver} {field : String} {depth : Nat}

/-- Whether a reader's readings of shapes at some depth are runs. -/
def RunsAt (a : Arena) (r : Resolver) (field : String) (depth : Nat) (reader : ShapeReader) : Prop :=
  ∀ target s, ∃ log, TargetRun a r field depth target s ((reader.read target).run s).1
    ((reader.read target).run s).2 log

variable {reader : ShapeReader} (hforest : a.Forest) (hreader : RunsAt a r field depth reader)

include hforest hreader

theorem valueRun_ofValueIn {n : Nat} {e : Child} (hn : a.reach e < n) (s : Expansion) :
    ∃ log, ValueRun a r field depth e s ((ofValueIn a r field reader n e).run s).1
      ((ofValueIn a r field reader n e).run s).2 log := by
  induction n generalizing e s with
  | zero => exact absurd hn (Nat.not_lt_zero _)
  | succ n ih =>
      have hreach := hforest.reach_stripRequired e
      rw [ofValueIn]
      obtain ⟨c, hc, h⟩ | ⟨callee, arguments, optional, argument, hform, hname, hargument, h⟩ |
        ⟨callee, arguments, optional, target, hform, hname, htarget, h⟩ :=
          ofLeaf_cases a r field (a.stripRequired e).1
      · dsimp only
        rw [h]
        exact ⟨[], .plain h⟩
      · have hmem : some argument ∈ arguments := by
          cases arguments with
          | nil => cases hargument
          | cons first rest => exact (show first = some argument from hargument) ▸ List.mem_cons_self
        have hlt := hforest.reach_lt hform (List.mem_cons_of_mem _ hmem)
        obtain ⟨log, hlog⟩ := @ih (some argument) (by omega) s
        dsimp only
        rw [h]
        exact ⟨log, .array hform hname hargument hlog⟩
      · obtain ⟨log, hlog⟩ := hreader target s
        dsimp only
        rw [h]
        exact ⟨log, .shape hform hname htarget hlog⟩

theorem elementsRun_ofElements (elements : List NodeId) (s : Expansion) :
    ∃ log, ElementsRun a r field depth elements s ((ofElements a r field reader elements).run s).1
      ((ofElements a r field reader elements).run s).2 log := by
  induction elements generalizing s with
  | nil => exact ⟨[], .nil⟩
  | cons element rest ih =>
      rw [ofElements]
      obtain ⟨property, -, hform, h⟩ | ⟨key, name, value, hkey, hform, h⟩ :=
        ofElement_cases a r field element
      · rw [h]
        obtain ⟨log, hlog⟩ := ih s
        exact ⟨log, .plain hform h hlog⟩
      · rw [h]
        obtain ⟨log₁, hlog₁⟩ := valueRun_ofValueIn hforest hreader (Nat.lt_succ_of_le (a.reach_le value)) s
        obtain ⟨log₂, hlog₂⟩ := ih ((ofValue a r field reader value).run s).2
        exact ⟨log₁ ++ log₂, .assignment hkey hform hlog₁ hlog₂⟩

theorem elementsRun_ofObject (object : NodeId) (s : Expansion) :
    ∃ properties log, ((ofObject a r field reader object).run s).1 = Entries.ofList properties ∧
      ElementsRun a r field depth (a.objectElements (some object)) s properties
        ((ofObject a r field reader object).run s).2 log := by
  rw [ofObject_eq_ofElements, Stateful.run_map]
  obtain ⟨log, h⟩ := elementsRun_ofElements hforest hreader (a.objectElements (some object)) s
  exact ⟨_, log, rfl, h⟩

end

section

variable {a : Arena} (hforest : a.Forest) (r : Resolver) (field : String)

theorem runsAt_watching {depth : Nat} {shape : NodeId → Classifier Classified}
    (h : ∀ object s, ∃ log, ObjectRun a r field depth object s ((shape object).run s).1
      ((shape object).run s).2 log) : RunsAt a r field depth (watching shape) := by
  intro target s
  cases target with
  | inPlace object =>
      obtain ⟨log, hlog⟩ := h object s
      exact ⟨_, .inPlace hlog⟩
  | named object =>
      by_cases hactive : object ∈ s.active
      · rw [ShapeReader.read, watching, ofReference_run_active hactive]
        exact ⟨_, .again hactive⟩
      · obtain ⟨log, hlog⟩ := h object { s with active := object :: s.active }
        rw [ShapeReader.read, watching, ofReference_run hactive (Prod.eta _).symm]
        exact ⟨_, .named hactive hlog rfl⟩

include hforest

theorem objectRun_ofShapeObject {level depth : Nat} (hlevel : depth + level = maxShapeDepth)
    (object : NodeId) (s : Expansion) :
    ∃ log, ObjectRun a r field depth object s ((ofShapeObject a r field level object).run s).1
      ((ofShapeObject a r field level object).run s).2 log := by
  induction level generalizing depth object s with
  | zero => exact ⟨[], .past (.inl (Nat.le_of_eq hlevel.symm))⟩
  | succ level ih =>
      by_cases hexpanded : maxShapeExpansions ≤ s.expanded
      · rw [ofShapeObject_run_spent field level hexpanded]
        exact ⟨[], .past (.inr hexpanded)⟩
      · have hlimit : ¬ PastLimit depth s := not_or.mpr ⟨by omega, hexpanded⟩
        obtain ⟨properties, log, heq, hlog⟩ :=
          elementsRun_ofObject hforest (runsAt_watching r field (ih (by omega : depth + 1 + level = maxShapeDepth)))
            object
            { s with expanded := s.expanded + 1 }
        rw [ofShapeObject_run_expand field level hexpanded, Stateful.run_map, heq]
        exact ⟨log, .expand hlimit hlog⟩

theorem classificationRun_classification (propTypes : Child) :
    ∃ log, ClassificationRun a r field propTypes (classification a r field propTypes).1
      (classification a r field propTypes).2 log := by
  unfold ClassificationRun classification
  rcases a.unparenthesized propTypes with - | object
  · exact ⟨[], [], rfl, .nil⟩
  · have hreader := runsAt_watching r field (objectRun_ofShapeObject hforest r field (Nat.zero_add _))
    obtain ⟨properties, log, heq, hlog⟩ := elementsRun_ofObject hforest hreader object {}
    exact ⟨log, properties, heq, hlog⟩

end

end Classified

namespace Module

open Classified

/-- Every classification comes to an end and stays within the limits: no shape lies too deep and no more
are expanded than allowed. Past a limit, a shape is an unsupported call, unless its object is being
expanded already. All shapes are looked at: there is no other run (`ClassificationRun.unique`). -/
theorem classification_withinLimits (fileName text field : String) (r : Resolver) (propTypes : Child) :
    let a := (Module.parse fileName text).arena
    let tree := classify a r field propTypes
    a.LinksEnd ∧ levelsAll tree ≤ maxShapeDepth ∧ shapesAll tree ≤ maxShapeExpansions ∧
      ∃ log, ClassificationRun a r field propTypes tree (classification a r field propTypes).2 log ∧
        ∀ x ∈ log, PastLimit x.depth x.before → x.target.Fresh x.before →
          x.result = .invalid .illegalCall := by
  have hforest := forest_arena fileName text
  obtain ⟨log, hlog⟩ := classificationRun_classification hforest r field propTypes
  obtain ⟨hlevels, hshapes, hmet⟩ := hlog.withinLimits
  exact ⟨hforest.linksEnd, hlevels, hshapes, log, hlog, hmet⟩

end Module

end PropContract
