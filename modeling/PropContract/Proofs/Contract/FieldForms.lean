import PropContract.Proofs.Contract.Fields
import PropContract.Proofs.Contract.Renumber.Check
import PropContract.Proofs.Parse.Complete
import PropContract.Proofs.Scope.Renumber

/-!
# The two forms of a contract field

A class declares the fields of its contract in its body, or by assignments that stand behind it. Where a module is
the other one with the fields moved out of the class, and is read so, both have the same contract: of a field the
last value counts, and a field without a value changes nothing.
-/

namespace PropContract

variable {φ : NodeId → NodeId} {a b : Arena} {names : FieldNames} {name : String} {cls : NodeId}

namespace Component

/-! ## Fields in a row -/

/-- The last value that is given to a field. -/
def lastValue (field : String) (fields : List (String × Child)) : Child :=
  fields.reverse.findSome? fun (f, value) => if f = field then value else none

/-- The component whose fields are set one after another. -/
def ofFields (names : FieldNames) (name : Option String) (classNode : Child) (fields : List (String × Child)) :
    Component :=
  fields.foldl (fun c (field, value) => c.setField names field value) { name, classNode }

theorem lastValue_concat (field f : String) (value : Child) (fields : List (String × Child)) :
    lastValue field (fields ++ [(f, value)]) =
      (if f = field then value else none).or (lastValue field fields) := by
  rw [lastValue, lastValue, List.reverse_concat, List.findSome?_cons]
  dsimp only
  generalize (if f = field then value else none) = last
  cases last <;> rfl

theorem ofFields_concat (name : Option String) (classNode : Child) (f : String) (value : Child)
    (fields : List (String × Child)) :
    ofFields names name classNode (fields ++ [(f, value)]) =
      (ofFields names name classNode fields).setField names f value :=
  List.foldl_concat ..

theorem propTypes_setField (c : Component) (f : String) (value : Child) :
    (c.setField names f value).propTypes = (if f = names.propTypes then value else none).or c.propTypes := by
  rw [setField]
  cases value with
  | none => simp
  | some id =>
      by_cases hp : f = names.propTypes
      · simp [hp]
      · rw [if_neg hp, if_neg hp]
        split_ifs <;> rfl

theorem overrides_setField (hne : names.overrides ≠ names.propTypes) (c : Component) (f : String) (value : Child) :
    (c.setField names f value).overrides = (if f = names.overrides then value else none).or c.overrides := by
  rw [setField]
  cases value with
  | none => simp
  | some id =>
      by_cases ho : f = names.overrides
      · simp [ho, hne]
      · rw [if_neg ho, if_neg ho]
        split_ifs <;> rfl

theorem propTypes_ofFields (name : Option String) (classNode : Child) (fields : List (String × Child)) :
    (ofFields names name classNode fields).propTypes = lastValue names.propTypes fields := by
  induction fields using List.reverseRecOn with
  | nil => rfl
  | append_singleton fields field ih => rw [ofFields_concat, propTypes_setField, lastValue_concat, ih]

theorem overrides_ofFields (hne : names.overrides ≠ names.propTypes) (name : Option String) (classNode : Child)
    (fields : List (String × Child)) :
    (ofFields names name classNode fields).overrides = lastValue names.overrides fields := by
  induction fields using List.reverseRecOn with
  | nil => rfl
  | append_singleton fields field ih => rw [ofFields_concat, overrides_setField hne, lastValue_concat, ih]

/-- The fields of a component are what a list gives them: the last value of each. -/
def Holds (names : FieldNames) (c : Component) (fields : List (String × Child)) : Prop :=
  c.propTypes = lastValue names.propTypes fields ∧
    (names.overrides ≠ names.propTypes → c.overrides = lastValue names.overrides fields)

theorem holds_ofFields (name : Option String) (classNode : Child) (fields : List (String × Child)) :
    (ofFields names name classNode fields).Holds names fields :=
  ⟨propTypes_ofFields .., fun hne => overrides_ofFields hne ..⟩

theorem ofFields_forall (P : Child → Prop) (names : FieldNames) (name : Option String) (classNode : Child)
    {fields : List (String × Child)} (hnone : P none) (hfields : ∀ field ∈ fields, P field.2) :
    P (ofFields names name classNode fields).propTypes ∧ P (ofFields names name classNode fields).overrides := by
  induction fields using List.reverseRecOn with
  | nil => exact ⟨hnone, hnone⟩
  | append_singleton fields field ih =>
      obtain ⟨hpropTypes, hoverrides⟩ := ih fun field hfield => hfields field (List.mem_append_left _ hfield)
      have hvalue := hfields field (List.mem_append_right _ (List.mem_singleton_self field))
      rw [ofFields_concat, setField]
      split_ifs
      · exact ⟨hpropTypes, hoverrides⟩
      · exact ⟨hvalue, hoverrides⟩
      · exact ⟨hpropTypes, hvalue⟩
      · exact ⟨hpropTypes, hoverrides⟩

theorem ofFields_renumber (name : Option String) (classNode : Child) (fields : List (String × Child)) :
    ofFields names name (classNode.map φ) (fields.map fun (f, value) => (f, value.map φ)) =
      (ofFields names name classNode fields).renumber φ := by
  induction fields using List.reverseRecOn with
  | nil => rfl
  | append_singleton fields field ih =>
      obtain ⟨f, value⟩ := field
      rw [List.map_append, List.map_singleton, ofFields_concat, ofFields_concat, ih, setField, setField,
        Option.isNone_map]
      repeat' split
      all_goals rfl

/-- Other fields are not looked at. -/
theorem foldl_setField_filter (fields : List (String × Child)) (c : Component) :
    fields.foldl (fun c (field, value) => c.setField names field value) c =
      (fields.filter (names.contains ·.1)).foldl (fun c (field, value) => c.setField names field value) c := by
  induction fields generalizing c with
  | nil => rfl
  | cons field fields ih =>
      obtain ⟨f, value⟩ := field
      rw [List.foldl_cons, ih, List.filter_cons]
      by_cases hfield : names.contains f
      · rw [if_pos hfield, List.foldl_cons]
      · have hother : f ≠ names.propTypes ∧ f ≠ names.overrides := by
          simpa [FieldNames.contains] using hfield
        have hsame : c.setField names f value = c := by
          rw [setField, if_neg hother.1, if_neg hother.2, ite_self]
        rw [if_neg hfield]
        exact congrArg (List.foldl _ · _) hsame

end Component

namespace Arena

/-- The fields of the contract that a class declares in its body, in order. -/
def contractFields (a : Arena) (names : FieldNames) (classNode : Child) : List (String × Child) :=
  (a.staticFields classNode).filter (names.contains ·.1)

def assignedField? (a : Arena) (name : String) (statement : NodeId) : Option (String × Child) := do
  let (owner, field, value) ← a.fieldStatement? statement
  if owner = name then return (field, value) else none

/-- The field of the contract of `name` that a statement assigns. -/
def contractAssignment? (a : Arena) (names : FieldNames) (name : String) (statement : NodeId) :
    Option (String × Child) :=
  (a.assignedField? name statement).filter (names.contains ·.1)

/-- The fields of a class are given by its static members, one by one in their order. -/
theorem contractFields_eq (names : FieldNames) (classNode : Child) :
    a.contractFields names classNode = (a.classMembers classNode).filterMap fun member =>
      (a.staticField? member).filter (names.contains ·.1) :=
  List.filter_filterMap ..

theorem mem_contractFields_iff {classNode : Child} {field : String} {value : Child} :
    (field, value) ∈ a.contractFields names classNode ↔
      names.contains field = true ∧ ∃ member ∈ a.classMembers classNode, a.IsStaticField field value member := by
  rw [contractFields_eq, List.mem_filterMap]
  simp only [Option.filter_eq_some_iff, staticField?_eq_some_iff]
  constructor
  · rintro ⟨member, hmember, hgives, hfield⟩
    exact ⟨hfield, member, hmember, hgives⟩
  · rintro ⟨hfield, member, hmember, hgives⟩
    exact ⟨member, hmember, hgives, hfield⟩

/-- A field of the contract is assigned by the statements that give it, and by no others. -/
theorem contractAssignment?_eq_some_iff {statement : NodeId} {field : String} {value : Child} :
    a.contractAssignment? names name statement = some (field, value) ↔
      names.contains field = true ∧ a.GivesField name field value statement := by
  rw [contractAssignment?, Option.filter_eq_some_iff, and_comm, ← fieldStatement?_eq_some_iff, assignedField?]
  refine and_congr_right fun _ => ?_
  rcases a.fieldStatement? statement with - | ⟨owner, f, v⟩
  · simp
  · by_cases howner : owner = name
    · simp [howner]
    · simp [howner]

/-- Members of the class come first, then what is assigned. -/
theorem collect_eq {classNode declaration : Child} {statements : List NodeId} {scope : Scope}
    (h : (if a.isClass declaration then declaration else a.classOf scope name) = classNode) :
    Component.collect a statements scope names (some name) declaration =
      .ofFields names (some name) classNode
        (a.contractFields names classNode ++ statements.filterMap (a.contractAssignment? names name)) := by
  have hassigned : (Component.assignedFields a statements name).filter (names.contains ·.1) =
      statements.filterMap (a.contractAssignment? names name) :=
    List.filter_filterMap ..
  rw [Component.collect, Option.bind_some, h, Option.toList_some, List.flatMap_singleton,
    Component.foldl_setField_filter, List.filter_append, hassigned]
  rfl

/-- The modifiers and the name of a class declaration. -/
def classHeader? (a : Arena) (statement : NodeId) : Option (Modifiers × String) := do
  let node ← a.get? statement
  match node.form with
  | .classDeclaration id _ _ => return (node.modifiers, ← a.identifierText id)
  | _ => none

/-- Whether a statement is a class declaration with these modifiers and this name. -/
def DeclaresClass (a : Arena) (cls : NodeId) (modifiers : Modifiers) (name : String) : Prop :=
  a.classHeader? cls = some (modifiers, name)

/-! ## Statements -/

theorem Copied.fieldAccess? {c : Child} (h : Copied φ a b c) : b.fieldAccess? (c.map φ) = a.fieldAccess? c := by
  rw [Arena.fieldAccess?, Arena.fieldAccess?, h.form?]
  rcases hform : a.form? c with - | form
  · rfl
  · cases form
    case propertyAccess target name optional =>
      have htarget := h.child hform (e := target) (by simp [Form.children])
      have hname := h.child hform (e := name) (by simp [Form.children])
      simp only [Option.map_some, Form.renumber, htarget.identifierText, hname.identifierText]
    case elementAccess target argument optional =>
      have htarget := h.child hform (e := target) (by simp [Form.children])
      have hargument := h.child hform (e := argument) (by simp [Form.children])
      simp only [Option.map_some, Form.renumber, htarget.identifierText, hargument.stringText]
    all_goals rfl

theorem Copied.assignment? {id : NodeId} (h : Copied φ a b (some id)) :
    b.assignment? (φ id) = (a.assignment? id).map (fun (target, value) => (target.map φ, value.map φ)) ∧
      ∀ target value, a.assignment? id = some (target, value) → Copied φ a b target := by
  rw [Arena.assignment?, Arena.assignment?, h.form?_some]
  rcases hid : a.form? (some id) with - | form
  · exact ⟨rfl, fun _ _ h => by cases h⟩
  · cases form
    case expressionStatement e =>
      have he := h.child hid (e := e) (by simp [Form.children])
      simp only [Option.map_some, Form.renumber, he.form?]
      rcases hexpression : a.form? e with - | form
      · exact ⟨rfl, fun _ _ h => by cases h⟩
      · cases form
        case binary left operator right =>
          have hleft := he.child hexpression (e := left) (by simp [Form.children])
          by_cases hoperator : operator = .assign .equals
          · subst hoperator
            refine ⟨rfl, fun target value heq => ?_⟩
            obtain ⟨rfl, rfl⟩ := Prod.mk.inj (Option.some.inj heq)
            exact hleft
          · simp [Form.renumber]
        all_goals
          refine ⟨rfl, fun target value heq => ?_⟩
          obtain ⟨rfl, rfl⟩ := Prod.mk.inj (Option.some.inj heq)
          exact he
    all_goals exact ⟨rfl, fun _ _ h => by cases h⟩

theorem Copied.fieldStatement? {id : NodeId} (h : Copied φ a b (some id)) :
    b.fieldStatement? (φ id) = (a.fieldStatement? id).map fun (owner, field, value) => (owner, field, value.map φ) := by
  obtain ⟨heq, hcopied⟩ := h.assignment?
  rw [Arena.fieldStatement?, Arena.fieldStatement?, heq]
  rcases hassignment : a.assignment? id with - | ⟨target, value⟩
  · rfl
  · simp only [Option.map_some, Option.bind_eq_bind, Option.bind_some, (hcopied target value hassignment).fieldAccess?]
    cases a.fieldAccess? target <;> rfl

theorem Copied.contractAssignment? {id : NodeId} (h : Copied φ a b (some id)) :
    b.contractAssignment? names name (φ id) =
      (a.contractAssignment? names name id).map fun (field, value) => (field, value.map φ) := by
  rw [Arena.contractAssignment?, Arena.contractAssignment?, assignedField?, assignedField?, h.fieldStatement?]
  rcases a.fieldStatement? id with - | ⟨owner, field, value⟩
  · rfl
  · by_cases howner : owner = name
    · by_cases hfield : names.contains field <;> simp [howner, hfield, Option.filter]
    · simp [howner]

/-- An assignment declares nothing. -/
theorem form?_of_contractAssignment? {id : NodeId} (h : (a.contractAssignment? names name id).isSome) :
    ∃ e, a.form? (some id) = some (.expressionStatement e) := by
  obtain ⟨⟨field, value⟩, h⟩ := Option.isSome_iff_exists.mp h
  obtain ⟨-, hgives⟩ := contractAssignment?_eq_some_iff.mp h
  cases hgives with
  | assigned hform => exact ⟨_, hform⟩
  | bare hform => exact ⟨_, hform⟩

/-! ## The class -/

namespace DeclaresClass

variable {modifiers : Modifiers} (h : a.DeclaresClass cls modifiers name)

include h

theorem node : ∃ node id heritage members, a.get? cls = some node ∧ node.modifiers = modifiers ∧
    node.form = .classDeclaration id heritage members ∧ a.identifierText id = some name := by
  rw [DeclaresClass, classHeader?] at h
  rcases hnode : a.get? cls with - | node
  · rw [hnode] at h
    cases h
  · rw [hnode, Option.bind_eq_bind, Option.bind_some] at h
    split at h
    · rename_i id heritage members hform
      rcases hname : a.identifierText id with - | text
      · rw [hname] at h
        cases h
      · rw [hname] at h
        cases h
        exact ⟨node, id, heritage, members, rfl, rfl, hform, hname⟩
    · cases h

theorem form? : ∃ id heritage members, a.form? (some cls) = some (.classDeclaration id heritage members) ∧
    a.identifierText id = some name := by
  obtain ⟨node, id, heritage, members, hget, -, hform, hname⟩ := h.node
  exact ⟨id, heritage, members, by simp [Arena.form?, hget, hform], hname⟩

theorem isClass : a.isClass (some cls) = true := by
  obtain ⟨id, heritage, members, hform, -⟩ := h.form?
  rw [Arena.isClass, hform]

theorem declarations : a.declarations cls = [{ name, flags := { isClass := true }, node := cls }] := by
  obtain ⟨id, heritage, members, hform, hname⟩ := h.form?
  rw [Arena.declarations, hform]
  simp only [hname]
  rfl

theorem exports : a.exports cls =
    if modifiers.exported then
      [{ kind := if modifiers.isDefault then .defaultDeclaration else .declaration
         node := cls, localName := some name, declaration := some cls }]
    else [] := by
  obtain ⟨node, id, heritage, members, hget, rfl, hform, hname⟩ := h.node
  rw [Arena.exports, hget]
  simp only [hform, declarationExport, hname]

theorem validatorNames : a.validatorNames cls = [] := by
  obtain ⟨id, heritage, members, hform, -⟩ := h.form?
  rw [Arena.validatorNames, hform]

theorem contractAssignment? : a.contractAssignment? names name cls = none := by
  obtain ⟨id, heritage, members, hform, -⟩ := h.form?
  cases hassignment : a.contractAssignment? names name cls with
  | none => rfl
  | some field =>
      obtain ⟨e, he⟩ := form?_of_contractAssignment? (Option.isSome_of_eq_some hassignment)
      rw [hform] at he
      cases he

end DeclaresClass

end Arena

namespace Module

/-- The one export of a module is the class `cls`, whose name is `name`. -/
structure ExportsClass (m : Module) (name : String) (cls : NodeId) (x : Export) : Prop where
  only : (Scope.ofModule m).exports = [x]
  localName : x.localName = some name
  classNode : (if m.arena.isClass x.declaration then x.declaration else m.arena.classOf (.ofModule m) name) = some cls

instance {m : Module} {x : Export} : Decidable (m.ExportsClass name cls x) :=
  decidable_of_iff ((Scope.ofModule m).exports = [x] ∧ x.localName = some name ∧
      (if m.arena.isClass x.declaration then x.declaration else m.arena.classOf (.ofModule m) name) = some cls)
    ⟨fun ⟨honly, hlocalName, hclassNode⟩ => ⟨honly, hlocalName, hclassNode⟩,
      fun ⟨honly, hlocalName, hclassNode⟩ => ⟨honly, hlocalName, hclassNode⟩⟩

/-- Whether `n` is read as `m` with the fields of the contract moved out of the class `cls`: the other statements
are where they were, the class has the same name and no field of the contract any more, and assignments behind
it give its fields the same values in the same order. -/
structure MovesFields (names : FieldNames) (φ : NodeId → NodeId) (m n : Module) (name : String) (cls : NodeId)
    (before after behind : List NodeId) : Prop where
  injective : Function.Injective φ
  source : m.statements = before ++ cls :: after
  target : n.statements = before.map φ ++ φ cls :: behind
  copied : ∀ s ∈ before ++ after, Arena.Copied φ m.arena n.arena (some s)
  declared : ∃ modifiers, m.arena.DeclaresClass cls modifiers name ∧ n.arena.DeclaresClass (φ cls) modifiers name
  values : ∀ field ∈ m.arena.contractFields names (some cls), Arena.Copied φ m.arena n.arena field.2
  left : n.arena.contractFields names (some (φ cls)) = []
  unassigned : ∀ s ∈ before, n.arena.contractAssignment? names name (φ s) = none
  others : behind.filter (fun s => (n.arena.contractAssignment? names name s).isNone) = after.map φ
  assigned : behind.filterMap (n.arena.contractAssignment? names name) =
    (m.arena.contractFields names (some cls)).map fun (field, value) => (field, value.map φ)

namespace MovesFields

variable {m n : Module} {before after behind : List NodeId} (h : MovesFields names φ m n name cls before after behind)

include h

/-- What statements give is the same, if assignments give nothing. -/
theorem flatMap_statements {α β : Type} {f : NodeId → List α} {f' : NodeId → List β} {g : α → β}
    (hcopied : ∀ s, Arena.Copied φ m.arena n.arena (some s) → f' (φ s) = (f s).map g)
    (hcls : f' (φ cls) = (f cls).map g)
    (hassigned : ∀ s, (n.arena.contractAssignment? names name s).isSome → f' s = []) :
    n.statements.flatMap f' = (m.statements.flatMap f).map g := by
  have hbehind (ss : List NodeId) :
      ss.flatMap f' = (ss.filter fun s => (n.arena.contractAssignment? names name s).isNone).flatMap f' := by
    induction ss with
    | nil => rfl
    | cons s ss ih =>
        rw [List.flatMap_cons, List.filter_cons, ih]
        cases hs : n.arena.contractAssignment? names name s with
        | none => rfl
        | some field =>
            rw [hassigned s (Option.isSome_of_eq_some hs)]
            rfl
  have hothers (ss : List NodeId) (hss : ∀ s ∈ ss, s ∈ before ++ after) :
      (ss.map φ).flatMap f' = (ss.flatMap f).map g := by
    rw [List.flatMap_map, List.map_flatMap]
    exact List.flatMap_congr fun s hs => hcopied s (h.copied s (hss s hs))
  rw [h.source, h.target, List.flatMap_append, List.flatMap_cons, hbehind behind, h.others, hcls,
    hothers before fun s hs => List.mem_append_left _ hs, hothers after fun s hs => List.mem_append_right _ hs,
    List.flatMap_append, List.flatMap_cons, List.map_append, List.map_append]

section

variable (hm : m.arena.Forest) (hn : n.arena.Forest)

include hm hn

/-- Both modules declare the same names and export the same. -/
theorem ofModule_eq : Scope.ofModule n = (Scope.ofModule m).renumber φ := by
  have hab : Arena.Renumbers φ m.arena n.arena := ⟨hm, hn, h.injective⟩
  obtain ⟨modifiers, hclass, hclass'⟩ := h.declared
  have hdeclarations := h.flatMap_statements (g := Declaration.renumber φ) (fun _ => hab.declarations)
    (by rw [hclass.declarations, hclass'.declarations]; rfl) fun s hs => by
      obtain ⟨e, he⟩ := Arena.form?_of_contractAssignment? hs
      rw [Arena.declarations, he]
  have hexports := h.flatMap_statements (g := Export.renumber φ) (fun _ => hab.exports)
    (by rw [hclass.exports, hclass'.exports]; split <;> rfl) fun s hs => by
      obtain ⟨e, he⟩ := Arena.form?_of_contractAssignment? hs
      obtain ⟨node, hnode, hform⟩ := Arena.exists_get?_of_form? he
      rw [Arena.exports, hnode]
      simp only [hform]
  have hvalidators : n.statements.flatMap n.arena.validatorNames =
      (m.statements.flatMap m.arena.validatorNames).map id :=
    h.flatMap_statements (fun s hs => by rw [hs.validatorNames, List.map_id])
      (by rw [hclass.validatorNames, hclass'.validatorNames]; rfl) fun s hs => by
        obtain ⟨e, he⟩ := Arena.form?_of_contractAssignment? hs
        rw [Arena.validatorNames, he]
  have hsymbols := Scope.foldl_declare_renumber (φ := φ) (m.statements.flatMap m.arena.declarations) []
  rw [List.map_nil] at hsymbols
  simp only [Scope.ofModule, Scope.add, Scope.renumber, List.nil_append, hdeclarations, hexports, hvalidators,
    List.map_id, hsymbols, Scope.markExported_renumber]

omit hm hn in
theorem agreesOn : ∀ s ∈ (Scope.ofModule m).symbols, Arena.AgreesOn φ m.arena n.arena s := by
  obtain ⟨modifiers, hclass, hclass'⟩ := h.declared
  refine Scope.agreesOn_markExported (Scope.agreesOn_foldl_declare (List.forall_mem_nil _) fun d hd => ?_)
  obtain ⟨s, hs, hd⟩ := List.mem_flatMap.mp hd
  rw [h.source, List.mem_append, List.mem_cons] at hs
  rcases hs with hs | rfl | hs
  · exact Arena.agreesOn_of_declarations (h.copied s (List.mem_append_left _ hs)) d hd
  · rw [hclass.declarations, List.mem_singleton] at hd
    subst hd
    exact ⟨hclass'.isClass.trans hclass.isClass.symm, .missing⟩
  · exact Arena.agreesOn_of_declarations (h.copied s (List.mem_append_right _ hs)) d hd

end

/-- Nothing is assigned as long as the fields are in the class. -/
theorem assignments_source : m.statements.filterMap (m.arena.contractAssignment? names name) = [] := by
  obtain ⟨modifiers, hclass, -⟩ := h.declared
  have unassigned {s : NodeId} (hs : s ∈ before ++ after)
      (hnone : n.arena.contractAssignment? names name (φ s) = none) :
      m.arena.contractAssignment? names name s = none := by
    rwa [(h.copied s hs).contractAssignment?, Option.map_eq_none_iff] at hnone
  rw [List.filterMap_eq_nil_iff, h.source]
  intro s hs
  rw [List.mem_append, List.mem_cons] at hs
  rcases hs with hs | rfl | hs
  · exact unassigned (List.mem_append_left _ hs) (h.unassigned s hs)
  · exact hclass.contractAssignment?
  · have hother := h.others ▸ List.mem_map_of_mem (f := φ) hs
    exact unassigned (List.mem_append_right _ hs) (Option.isNone_iff_eq_none.mp (List.mem_filter.mp hother).2)

theorem assignments_target : n.statements.filterMap (n.arena.contractAssignment? names name) =
    (m.arena.contractFields names (some cls)).map fun (field, value) => (field, value.map φ) := by
  obtain ⟨modifiers, -, hclass⟩ := h.declared
  have hbefore : (before.map φ).filterMap (n.arena.contractAssignment? names name) = [] := by
    rw [List.filterMap_eq_nil_iff]
    intro s hs
    obtain ⟨s', hs', rfl⟩ := List.mem_map.mp hs
    exact h.unassigned s' hs'
  rw [h.target, List.filterMap_append, List.filterMap_cons, hclass.contractAssignment?, hbefore]
  exact h.assigned

theorem isClass_declaration (hlawful : m.arena.Lawful) {x : Export} (hx : x ∈ (Scope.ofModule m).exports) :
    n.arena.isClass (x.declaration.map φ) = m.arena.isClass x.declaration := by
  obtain ⟨modifiers, hclass, hclass'⟩ := h.declared
  obtain ⟨s, hs, hx⟩ := List.mem_flatMap.mp hx
  have hdeclaration : x.declaration = none ∨ x.declaration = some s := by
    cases Arena.counts_of_mem_exports hlawful hx with
    | defaultDeclaration | declaration => exact .inr rfl
    | _ => exact .inl rfl
  rcases hdeclaration with hnone | hsome
  · rw [hnone]
    rfl
  · rw [hsome]
    rw [h.source, List.mem_append, List.mem_cons] at hs
    rcases hs with hs | rfl | hs
    · exact (h.copied s (List.mem_append_left _ hs)).isClass
    · exact hclass'.isClass.trans hclass.isClass.symm
    · exact (h.copied s (List.mem_append_right _ hs)).isClass

/-- The component of both modules is made of the fields that the class declares. -/
theorem chosenComponent_eq (hm : m.arena.Forest) (hn : n.arena.Forest) (hlawful : m.arena.Lawful) {x : Export}
    (hx : m.ExportsClass name cls x) {component : Component}
    (hcomponent : component = .ofFields names (some name) (some cls) (m.arena.contractFields names (some cls))) :
    chosenComponent m.arena (.ofModule m) names (some m.root) = some component ∧
      chosenComponent n.arena (.ofModule n) names (some n.root) = some (component.renumber φ) := by
  have hexport' : ((Scope.ofModule m).renumber φ).exports = [x.renumber φ] := by
    rw [Scope.renumber, hx.only, List.map_singleton]
  have hclass := h.isClass_declaration hlawful (x := x) (hx.only ▸ List.mem_singleton_self x)
  have hclassOf := Scope.classOf_renumber ⟨hm, hn, h.injective⟩ h.agreesOn name
  have hclassNode : (if n.arena.isClass (x.declaration.map φ) then x.declaration.map φ
      else n.arena.classOf ((Scope.ofModule m).renumber φ) name) = (some cls).map φ := by
    rw [hclass, hclassOf, ← hx.classNode]
    split <;> rfl
  rw [chosenComponent, chosenComponent, h.ofModule_eq hm hn, hx.only, hexport']
  dsimp only [Export.renumber]
  rw [hx.localName, Arena.collect_eq hx.classNode, Arena.collect_eq hclassNode, hcomponent,
    ← Component.ofFields_renumber, Option.map_some, h.left, List.nil_append]
  have hsource := h.assignments_source
  have htarget := h.assignments_target
  rw [Module.statements] at hsource htarget
  rw [hsource, htarget, List.append_nil]
  exact ⟨rfl, rfl⟩

end MovesFields

/-- A module whose one export is a class has the same contract after the fields of the class have been moved into
assignments behind it. In both forms a field is the last value that it is given. -/
theorem checkContract_movesFields {fileName text text' : String} {before after behind : List NodeId} {x : Export}
    (hx : (Module.parse fileName text).ExportsClass name cls x)
    (h : MovesFields names φ (Module.parse fileName text) (Module.parse fileName text') name cls before after behind) :
    let m := Module.parse fileName text
    let n := Module.parse fileName text'
    let result := checkContract m.arena (.ofModule m) names fileName (some m.root)
    let result' := checkContract n.arena (.ofModule n) names fileName (some n.root)
    result'.findings.map (fun f => (f.violation, f.args)) = result.findings.map (fun f => (f.violation, f.args)) ∧
      result'.model = result.model ∧
      ∃ component component', result.component = some component ∧ result'.component = some component' ∧
        component.Holds names (m.arena.contractFields names (some cls)) ∧
        component'.Holds names (n.statements.filterMap (n.arena.contractAssignment? names name)) := by
  have hm := forest_arena fileName text
  have hn := forest_arena fileName text'
  have hlawful := lawful_parse fileName text
  generalize Module.parse fileName text = m at *
  generalize Module.parse fileName text' = n at *
  obtain ⟨hcomponent, hcomponent'⟩ := h.chosenComponent_eq hm hn hlawful hx rfl
  have hcopied :=
    Component.ofFields_forall (Arena.Copied φ m.arena n.arena) names (some name) (some cls) .missing h.values
  have hrenumbered := checkContract_renumber ⟨hm, hn, h.injective⟩ h.agreesOn hx.only fileName hcomponent
    (h.ofModule_eq hm hn ▸ hcomponent') hcopied.1 hcopied.2
  rw [← h.ofModule_eq hm hn] at hrenumbered
  have hresult := component_checkContract fileName hcomponent
  have hresult' := component_checkContract fileName hcomponent'
  refine ⟨?_, ?_, _, _, hresult, hresult', Component.holds_ofFields .., ?_⟩
  · rw [hrenumbered, CheckResult.renumber, List.map_map]
    rfl
  · rw [hrenumbered]
    rfl
  · rw [← Component.ofFields_renumber, h.assignments_target]
    exact Component.holds_ofFields ..

/-- Fields in the body of a class: repeated, quoted, and without a value. -/
def fieldsInside : String :=
  "f;export class A\x7bstatic propTypes;static 'propTypes'=\x7bp:PropTypes.bool\x7d;" ++
    "static viewModelMeta=\x7bp:'int'\x7d;static propTypes\x7dg"

/-- The same fields behind the class, with another statement among them. -/
def fieldsBehind : String :=
  "f;export class A\x7b\x7dA.propTypes;A.propTypes=\x7bp:PropTypes.bool\x7d;" ++
    "A.viewModelMeta=\x7bp:'int'\x7d;g;A.propTypes"

/-- The number behind the class of each node inside. Nodes that are gone have numbers past the last. -/
def numbersBehind : List Nat :=
  [0, 1, 2, 40, 41, 42] ++ List.range' 11 6 ++ [43, 44] ++ List.range' 22 4 ++ [45, 46, 47, 3, 28, 29]

/-- What is to be evaluated for the fields to be seen as moved. -/
theorem fieldsInside_eval :
    let φ (id : NodeId) := numbersBehind.getD id (id + 50)
    let m := Module.parse "A.jsx" fieldsInside
    let n := Module.parse "A.jsx" fieldsBehind
    m.ExportsClass "A" 21 { kind := .declaration, node := 21, localName := "A", declaration := some 21 } ∧
    (m.statements = [1, 21, 23] ∧ n.statements = [1, 3, 7, 18, 27, 29, 33]) ∧
    (m.arena.classHeader? 21 = some ({ exported := true }, "A") ∧
      n.arena.classHeader? 3 = some ({ exported := true }, "A")) ∧
    Arena.standsIn φ m.arena n.arena ([0, 1] ++ List.range' 6 6 ++ List.range' 14 4 ++ [22, 23]) = true ∧
    (m.arena.contractFields {} (some 21) =
        [("propTypes", none), ("propTypes", some 11), ("viewModelMeta", some 17), ("propTypes", none)] ∧
      n.arena.contractFields {} (some 3) = []) ∧
    n.arena.contractAssignment? {} "A" 1 = none ∧
    [7, 18, 27, 29, 33].filter (fun s => (n.arena.contractAssignment? {} "A" s).isNone) = [29] ∧
    [7, 18, 27, 29, 33].filterMap (n.arena.contractAssignment? {} "A") =
      [("propTypes", none), ("propTypes", some 16), ("viewModelMeta", some 25), ("propTypes", none)] := by
  decide +kernel

/-- Both forms of `A` have one model. Fields without a value, repeated ones and a quoted one change nothing. -/
theorem checkContract_movesFields_repeated :
    (Module.parse "A.jsx" fieldsInside).ExportsClass "A" 21
        { kind := .declaration, node := 21, localName := "A", declaration := some 21 } ∧
      MovesFields {} (fun id => numbersBehind.getD id (id + 50)) (Module.parse "A.jsx" fieldsInside)
        (Module.parse "A.jsx" fieldsBehind) "A" 21 [1] [23] [7, 18, 27, 29, 33] ∧
      let m := Module.parse "A.jsx" fieldsInside
      let n := Module.parse "A.jsx" fieldsBehind
      (checkContract n.arena (.ofModule n) {} "A.jsx" (some n.root)).model =
        (checkContract m.arena (.ofModule m) {} "A.jsx" (some m.root)).model := by
  obtain ⟨hx, ⟨hsource, htarget⟩, ⟨hheader, hheader'⟩, hstands, ⟨hfields, hleft⟩, hbefore, hothers,
    hassigned⟩ := fieldsInside_eval
  have hcopied {id : NodeId} (hid : id ∈ [0, 1] ++ List.range' 6 6 ++ List.range' 14 4 ++ [22, 23]) :=
    Arena.copied_of_standsIn (forest_arena "A.jsx" fieldsInside) hstands hid
  have hmoves : MovesFields {} (fun id => numbersBehind.getD id (id + 50)) (Module.parse "A.jsx" fieldsInside)
      (Module.parse "A.jsx" fieldsBehind) "A" 21 [1] [23] [7, 18, 27, 29, 33] := {
    injective := Arena.injective_getD (by decide) (by decide)
    source := hsource
    target := htarget
    copied := List.forall_mem_cons.mpr ⟨hcopied (by decide), List.forall_mem_singleton.mpr (hcopied (by decide))⟩
    declared := ⟨_, hheader, hheader'⟩
    values := by
      rw [hfields]
      simp only [List.forall_mem_cons, List.not_mem_nil, false_imp_iff, implies_true, and_true]
      exact ⟨.missing, hcopied (by decide), hcopied (by decide), .missing⟩
    left := hleft
    unassigned := List.forall_mem_singleton.mpr hbefore
    others := hothers
    assigned := by
      rw [hassigned, hfields]
      rfl }
  exact ⟨hx, hmoves, (checkContract_movesFields hx hmoves).2.1⟩

/-- Where the text of a field is all that keeps two members of the class apart, moving it makes them one: here the
word `static` becomes an operand, and the next one makes the member behind it a field of the contract. -/
theorem rejoined_members :
    let m := Module.parse "A.jsx"
      "export class A\x7bx=1\nstatic propTypes\nin\nstatic\nstatic\npropTypes=\x7bb:PropTypes.string\x7d\x7d"
    let n := Module.parse "A.jsx"
      "export class A\x7bx=1\n\nin\nstatic\nstatic\npropTypes=\x7bb:PropTypes.string\x7d\x7dA.propTypes"
    m.errors = [] ∧ n.errors = [] ∧
      m.ExportsClass "A" 18 { kind := .declaration, node := 18, localName := "A", declaration := some 18 } ∧
      m.arena.contractFields {} (some 18) = [("propTypes", none)] ∧
      n.statements.filterMap (n.arena.contractAssignment? {} "A") = [("propTypes", none)] ∧
      (checkContract m.arena (.ofModule m) {} "A.jsx" (some m.root)).model.map (·.properties.length) = some 0 ∧
      (checkContract n.arena (.ofModule n) {} "A.jsx" (some n.root)).model.map (·.properties.length) = some 1 := by
  decide +kernel

end Module

end PropContract
