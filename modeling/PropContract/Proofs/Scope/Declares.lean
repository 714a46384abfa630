import PropContract.Proofs.Parse.Complete
import PropContract.Proofs.Tree.Links
import PropContract.Scope.Declaration

/-!
# What a statement declares

The declarations and the counted exports of a statement, read off the tree form by form and without a
budget. In a tree that is a forest, lawful and complete, this is what is computed.
-/

namespace PropContract

/-- Whether the node can bind names in a pattern. -/
def Form.isBinding : Form → Bool
  | .identifier _ | .objectPattern _ | .arrayPattern _ | .bindingElement .. => true
  | _ => false

/-- The name of a class or function declaration, which it may leave out. -/
def Form.declaredName? : Form → Option Child
  | .classDeclaration name _ _ | .functionDeclaration name _ => some name
  | _ => none

namespace Arena

variable {a : Arena}

/-! ## Patterns -/

mutual

/-- The names that a pattern binds, from left to right. -/
inductive Binds (a : Arena) : Child → List String → Prop where
  | name {c : Child} {text : String} : a.form? c = some (.identifier text) → Binds a c [text]
  | object {c : Child} {elements : List NodeId} {names : List String} :
    a.form? c = some (.objectPattern elements) → BindsEach a elements names → Binds a c names
  | array {c : Child} {elements : List NodeId} {names : List String} :
    a.form? c = some (.arrayPattern elements) → BindsEach a elements names → Binds a c names
  | element {c propertyName name initializer : Child} {rest : Bool} {names : List String} :
    a.form? c = some (.bindingElement propertyName name initializer rest) → Binds a name names →
      Binds a c names
  | nothing {c : Child} : (∀ form, a.form? c = some form → form.isBinding = false) → Binds a c []

/-- The names that patterns bind one after the other. -/
inductive BindsEach (a : Arena) : List NodeId → List String → Prop where
  | nil : BindsEach a [] []
  | cons {element : NodeId} {elements : List NodeId} {names names' : List String} :
    Binds a (some element) names → BindsEach a elements names' →
      BindsEach a (element :: elements) (names ++ names')

end

theorem bindsEach_flatMap {f : NodeId → List String} {elements : List NodeId}
    (h : ∀ e ∈ elements, a.Binds (some e) (f e)) : a.BindsEach elements (elements.flatMap f) := by
  induction elements with
  | nil => exact .nil
  | cons e elements ih =>
      rw [List.flatMap_cons]
      exact .cons (h e List.mem_cons_self) (ih fun e' he => h e' (List.mem_cons_of_mem _ he))

/-- As many levels as links can be followed are enough for all names of a pattern. -/
theorem Forest.binds_boundNamesIn (hforest : a.Forest) {n : Nat} {c : Child} (hn : a.reach c ≤ n) :
    a.Binds c (a.boundNamesIn n c) := by
  induction n generalizing c with
  | zero =>
      refine .nothing fun form hform => ?_
      rw [form?_of_reach (Nat.le_zero.mp hn)] at hform
      exact nomatch hform
  | succ n ih =>
      have hchild {form : Form} {e : Child} (hform : a.form? c = some form) (he : e ∈ form.children) :
          a.Binds e (a.boundNamesIn n e) := by
        have hlt := hforest.reach_lt hform he
        exact ih (by omega)
      rw [boundNamesIn]
      split
      · exact .name ‹_›
      · rename_i hform
        exact .object hform (bindsEach_flatMap fun e he => hchild hform (List.mem_map_of_mem he))
      · rename_i hform
        exact .array hform (bindsEach_flatMap fun e he => hchild hform (List.mem_map_of_mem he))
      · rename_i hform
        exact .element hform (hchild hform (by simp [Form.children]))
      · rename_i hname hobject harray helement
        refine .nothing fun form hform => ?_
        cases form with
        | identifier text => exact absurd hform (hname text)
        | objectPattern elements => exact absurd hform (hobject elements)
        | arrayPattern elements => exact absurd hform (harray elements)
        | bindingElement propertyName name initializer rest =>
            exact absurd hform (helement propertyName name initializer rest)
        | _ => rfl

theorem Forest.binds_boundNames (hforest : a.Forest) (c : Child) : a.Binds c (a.boundNames c) :=
  hforest.binds_boundNamesIn (a.reach_le c)

/-- What a pattern binds, by its form. -/
theorem Binds.of_form? {c : Child} {names : List String} (h : a.Binds c names) :
    match a.form? c with
    | some (.identifier text) => names = [text]
    | some (.objectPattern elements)
    | some (.arrayPattern elements) => a.BindsEach elements names
    | some (.bindingElement _ inner _ _) => a.Binds inner names
    | _ => names = [] := by
  cases h with
  | name hform => rw [hform]
  | object hform heach => rwa [hform]
  | array hform heach => rwa [hform]
  | element hform hname => rwa [hform]
  | nothing hnothing =>
      split
      · cases hnothing _ ‹_›
      · cases hnothing _ ‹_›
      · cases hnothing _ ‹_›
      · cases hnothing _ ‹_›
      · rfl

mutual

/-- A pattern binds the same names however it is read. -/
theorem Binds.unique {c : Child} {names names' : List String} :
    a.Binds c names → a.Binds c names' → names = names'
  | .name hform, h' => by
      have h' := h'.of_form?
      rw [hform] at h'
      exact h'.symm
  | .object hform heach, h' => by
      have h' := h'.of_form?
      rw [hform] at h'
      exact heach.unique h'
  | .array hform heach, h' => by
      have h' := h'.of_form?
      rw [hform] at h'
      exact heach.unique h'
  | .element hform hname, h' => by
      have h' := h'.of_form?
      rw [hform] at h'
      exact hname.unique h'
  | .nothing hnothing, h' => by
      cases h' with
      | nothing _ => rfl
      | name hform' => cases hnothing _ hform'
      | object hform' _ => cases hnothing _ hform'
      | array hform' _ => cases hnothing _ hform'
      | element hform' _ => cases hnothing _ hform'

theorem BindsEach.unique {elements : List NodeId} {names names' : List String} :
    a.BindsEach elements names → a.BindsEach elements names' → names = names'
  | .nil, .nil => rfl
  | .cons hname heach, .cons hname' heach' => by rw [hname.unique hname', heach.unique heach']

end

/-! ## Declarations -/

/-- What one variable of a statement declares: its name with its value, or the names of its pattern
without one. -/
inductive DeclaresVariable (a : Arena) (flags : SymbolFlags) (id : NodeId) : List Declaration → Prop where
  | plain {name initializer : Child} {text : String} :
    a.form? (some id) = some (.variableDeclaration name initializer) →
      a.form? name = some (.identifier text) →
      DeclaresVariable a flags id [{ name := text, flags, node := id, initializer }]
  | pattern {name initializer : Child} {texts : List String} :
    a.form? (some id) = some (.variableDeclaration name initializer) →
      (∀ text, a.form? name ≠ some (.identifier text)) → a.Binds name texts →
      DeclaresVariable a flags id (texts.map fun text => { name := text, flags, node := id })

/-- What a name of an import declares, at a node and for the name that `imported` gives to it: nothing
where it is left out or not an identifier. -/
inductive Imports (a : Arena) (module : String) (imported : String → String) (node localName : Child) :
    List Declaration → Prop where
  | name {id : NodeId} {text : String} : node = some id → a.form? localName = some (.identifier text) →
    Imports a module imported node localName
      [{ name := text, flags := { isImport := true }, node := id
         source := some { module? := some module, name := imported text } }]
  | nothing : (∀ text, a.form? localName ≠ some (.identifier text)) →
    Imports a module imported node localName []

/-- What a specifier of an import declares: `a` for its own name, `a as b` for the other one. -/
inductive ImportsSpecifier (a : Arena) (module : String) (id : NodeId) : List Declaration → Prop where
  | same {name : Child} {ds : List Declaration} : a.form? (some id) = some (.importSpecifier none name) →
    a.Imports module (fun text => text) (some id) name ds → ImportsSpecifier a module id ds
  | renamed {propertyName name : Child} {imported : String} {ds : List Declaration} :
    a.form? (some id) = some (.importSpecifier propertyName name) →
      a.propertyNameText propertyName = some imported →
      a.Imports module (fun _ => imported) (some id) name ds → ImportsSpecifier a module id ds

/-- Whether a statement has no part that declares anything. -/
def DeclaresNothing (a : Arena) (statement : NodeId) : Prop :=
  match a.form? (some statement) with
  | some (.variableStatement _ _) | some (.importDeclaration _ _ _ _) => False
  | some (.classDeclaration name _ _) | some (.functionDeclaration name _) =>
    ∀ text, a.form? name ≠ some (.identifier text)
  | _ => True

/-- What a statement declares, in source order. -/
inductive Declares (a : Arena) (statement : NodeId) : List Declaration → Prop where
  | ofVariables {word : VariableWord} {ids : List NodeId} {dss : List (List Declaration)} :
    a.form? (some statement) = some (.variableStatement word ids) →
      List.Forall₂ (a.DeclaresVariable { isVariable := true, isConst := word == .constWord }) ids dss →
      Declares a statement dss.flatten
  | ofClass {name heritage : Child} {members : List NodeId} {text : String} :
    a.form? (some statement) = some (.classDeclaration name heritage members) →
      a.form? name = some (.identifier text) →
      Declares a statement [{ name := text, flags := { isClass := true }, node := statement }]
  | ofFunction {name body : Child} {text : String} :
    a.form? (some statement) = some (.functionDeclaration name body) →
      a.form? name = some (.identifier text) →
      Declares a statement [{ name := text, flags := { isFunction := true }, node := statement }]
  | ofImport {defaultName ns specifier : Child} {named : Option (List NodeId)} {module : String}
      {ds ds' : List Declaration} {dss : List (List Declaration)} :
    a.form? (some statement) = some (.importDeclaration defaultName ns named specifier) →
      a.form? specifier = some (.literal .string module) →
      a.Imports module (fun _ => "default") defaultName defaultName ds →
      a.Imports module (fun _ => "*") ns ns ds' →
      List.Forall₂ (a.ImportsSpecifier module) (named.getD []) dss →
      Declares a statement (ds ++ ds' ++ dss.flatten)
  | nothing : a.DeclaresNothing statement → Declares a statement []

theorem identifierText_eq_some {c : Child} {text : String} :
    a.identifierText c = some text ↔ a.form? c = some (.identifier text) := by
  unfold identifierText
  split
  · rename_i name hform
    rw [hform]
    simp
  · rename_i hnot
    exact iff_of_false nofun (hnot text)

theorem identifierText_eq_none {c : Child} :
    a.identifierText c = none ↔ ∀ text, a.form? c ≠ some (.identifier text) := by
  simp only [← identifierText_eq_some, ne_eq, Option.eq_none_iff_forall_ne_some]

theorem stringText_of_form? {c : Child} {text : String} (h : a.form? c = some (.literal .string text)) :
    a.stringText c = some text := by
  rw [stringText, h]

/-- Lists that are read one by one are what the reading computes for each. -/
theorem flatMap_of_forall₂ {α β : Type} {R : α → List β → Prop} {f : α → List β}
    (hR : ∀ x ys, R x ys → f x = ys) {xs : List α} {yss : List (List β)} (h : List.Forall₂ R xs yss) :
    xs.flatMap f = yss.flatten := by
  induction h with
  | nil => rfl
  | cons hxy _ ih => rw [List.flatMap_cons, List.flatten_cons, hR _ _ hxy, ih]

theorem DeclaresVariable.eq (hforest : a.Forest) {flags : SymbolFlags} {id : NodeId} {ds : List Declaration}
    (h : a.DeclaresVariable flags id ds) : a.variableDeclarations flags id = ds := by
  cases h with
  | plain hform hname => simp only [variableDeclarations, hform, identifierText_eq_some.mpr hname]
  | pattern hform hname hbinds =>
      simp only [variableDeclarations, hform, identifierText_eq_none.mpr hname,
        hbinds.unique (hforest.binds_boundNames _)]

theorem Imports.eq {module : String} {imported : String → String} {node localName : Child}
    {ds : List Declaration} (h : a.Imports module imported node localName ds) :
    (a.importDeclaration? (some module) localName node imported).toList = ds := by
  cases h with
  | name hnode hname =>
      rw [importDeclaration?, identifierText_eq_some.mpr hname, hnode]
      rfl
  | nothing hname =>
      rw [importDeclaration?, identifierText_eq_none.mpr hname]
      rfl

theorem ImportsSpecifier.eq {module : String} {id : NodeId} {ds : List Declaration}
    (h : a.ImportsSpecifier module id ds) : (a.specifierDeclaration? (some module) id).toList = ds := by
  cases h with
  | same hform himports =>
      rw [specifierDeclaration?, hform]
      exact himports.eq
  | renamed hform himported himports =>
      rw [specifierDeclaration?, hform]
      simp only [himported, Option.getD_some]
      exact himports.eq

/-- What a statement declares is what is computed. -/
theorem Declares.eq (hforest : a.Forest) {statement : NodeId} {ds : List Declaration}
    (h : a.Declares statement ds) : a.declarations statement = ds := by
  cases h with
  | ofVariables hform hvariables =>
      rw [declarations, hform]
      exact flatMap_of_forall₂ (fun _ _ h => h.eq hforest) hvariables
  | ofClass hform hname =>
      rw [declarations, hform]
      simp only [identifierText_eq_some.mpr hname, Option.toList_some, List.map_cons, List.map_nil]
  | ofFunction hform hname =>
      rw [declarations, hform]
      simp only [identifierText_eq_some.mpr hname, Option.toList_some, List.map_cons, List.map_nil]
  | ofImport hform hmodule hdefault hns hnamed =>
      rw [declarations, hform]
      simp only [stringText_of_form? hmodule, hdefault.eq, hns.eq, List.filterMap_eq_flatMap_toList,
        flatMap_of_forall₂ (fun _ _ h => ImportsSpecifier.eq h) hnamed]
  | nothing hnothing =>
      rw [declarations]
      rw [DeclaresNothing] at hnothing
      cases hform : a.form? (some statement) with
      | none => rfl
      | some form =>
          rw [hform] at hnothing
          cases form with
          | variableStatement word ids => exact hnothing.elim
          | importDeclaration defaultName ns named specifier => exact hnothing.elim
          | classDeclaration name heritage members =>
              simp only [identifierText_eq_none.mpr hnothing, Option.toList_none, List.map_nil]
          | functionDeclaration name body =>
              simp only [identifierText_eq_none.mpr hnothing, Option.toList_none, List.map_nil]
          | _ => rfl

/-- What is computed for each is read one by one. -/
theorem forall₂_map {α β : Type} {R : α → β → Prop} {f : α → β} {xs : List α} (h : ∀ x ∈ xs, R x (f x)) :
    List.Forall₂ R xs (xs.map f) :=
  List.forall₂_map_right_iff.mpr (List.forall₂_same.mpr h)

theorem declaresVariable (hforest : a.Forest) {flags : SymbolFlags} {id : NodeId}
    (h : a.IsPair .variableDeclaration id) : a.DeclaresVariable flags id (a.variableDeclarations flags id) := by
  obtain ⟨name, initializer, hform⟩ := h
  cases hname : a.identifierText name with
  | some text =>
      simp only [variableDeclarations, hform, hname]
      exact .plain hform (identifierText_eq_some.mp hname)
  | none =>
      simp only [variableDeclarations, hform, hname]
      exact .pattern hform (identifierText_eq_none.mp hname) (hforest.binds_boundNames name)

theorem imports (module : String) (imported : String → String) {node localName : Child}
    (hnode : (a.form? localName).isSome → node.isSome) :
    a.Imports module imported node localName
      (a.importDeclaration? (some module) localName node imported).toList := by
  cases hname : a.identifierText localName with
  | none =>
      rw [importDeclaration?, hname]
      exact .nothing (identifierText_eq_none.mp hname)
  | some text =>
      have hform := identifierText_eq_some.mp hname
      obtain ⟨id, rfl⟩ := Option.isSome_iff_exists.mp (hnode (by rw [hform]; rfl))
      rw [importDeclaration?, hname]
      exact .name rfl hform

theorem isSome_of_form? {c : Child} (h : (a.form? c).isSome) : c.isSome := by
  cases c with
  | none => exact h
  | some id => rfl

theorem importsSpecifier (hlawful : a.Lawful) {module : String} {id : NodeId}
    (h : a.IsPair .importSpecifier id) :
    a.ImportsSpecifier module id (a.specifierDeclaration? (some module) id).toList := by
  obtain ⟨propertyName, name, hform⟩ := h
  obtain ⟨_, hname⟩ := hlawful.of_form? hform
  rw [specifierDeclaration?, hform]
  dsimp only
  obtain rfl | ⟨imported, himported⟩ := hname
  · exact .same hform (imports module _ fun _ => rfl)
  · rw [himported]
    exact .renamed hform himported (imports module _ fun _ => rfl)

/-- Every statement has a reading. -/
theorem declares (hforest : a.Forest) (hlawful : a.Lawful) (hcomplete : a.Complete) (statement : NodeId) :
    a.Declares statement (a.declarations statement) := by
  have hnothing (h : a.DeclaresNothing statement) : a.Declares statement (a.declarations statement) := by
    rw [(Declares.nothing h).eq hforest]
    exact .nothing h
  cases hform : a.form? (some statement) with
  | none => exact hnothing (by rw [DeclaresNothing, hform]; trivial)
  | some form =>
      cases form with
      | variableStatement word ids =>
          obtain ⟨_, hpairs⟩ := hlawful.of_form? hform
          rw [declarations, hform]
          exact .ofVariables hform (forall₂_map fun id hid => declaresVariable hforest (hpairs id hid))
      | importDeclaration defaultName ns named specifier =>
          obtain ⟨_, hpairs, hspecifier⟩ := hlawful.of_form? hform
          obtain ⟨form, hsome⟩ := hcomplete.child hform (c := specifier) (by simp [Form.row])
          obtain rfl | ⟨module, hmodule⟩ := hspecifier
          · cases hsome
          rw [declarations, hform]
          simp only [stringText_of_form? hmodule, List.filterMap_eq_flatMap_toList]
          exact .ofImport hform hmodule (imports module _ isSome_of_form?) (imports module _ isSome_of_form?)
            (forall₂_map fun id hid => importsSpecifier hlawful (hpairs id hid))
      | classDeclaration name heritage members =>
          cases hname : a.identifierText name with
          | none => exact hnothing (by rw [DeclaresNothing, hform]; exact identifierText_eq_none.mp hname)
          | some text =>
              have hclass := Declares.ofClass hform (identifierText_eq_some.mp hname)
              rw [hclass.eq hforest]
              exact hclass
      | functionDeclaration name body =>
          cases hname : a.identifierText name with
          | none => exact hnothing (by rw [DeclaresNothing, hform]; exact identifierText_eq_none.mp hname)
          | some text =>
              have hfunction := Declares.ofFunction hform (identifierText_eq_some.mp hname)
              rw [hfunction.eq hforest]
              exact hfunction
      | _ => exact hnothing (by rw [DeclaresNothing, hform]; trivial)

/-! ## Exports -/

/-- Whether a statement makes an export that counts: a name by default, a class or function with or
without `default`, each name in braces without a module, and each variable. -/
inductive Counts (a : Arena) (statement : NodeId) : Export → Prop where
  | defaultExpression {e : Child} {name : String} :
    a.form? (some statement) = some (.exportAssignment e) →
      a.form? (a.unparenthesized e) = some (.identifier name) →
      Counts a statement { kind := .defaultExpression, node := statement, localName := some name }
  | defaultDeclaration {n : Node} {name : Child} : a.get? statement = some n →
      n.form.declaredName? = some name → n.modifiers.exported = true → n.modifiers.isDefault = true →
      Counts a statement
        { kind := .defaultDeclaration, node := statement, localName := a.identifierText name
          declaration := some statement }
  | declaration {n : Node} {name : Child} : a.get? statement = some n →
      n.form.declaredName? = some name → n.modifiers.exported = true → n.modifiers.isDefault = false →
      Counts a statement
        { kind := .declaration, node := statement, localName := a.identifierText name
          declaration := some statement }
  | specifier {clause : List NodeId} {ns propertyName name : Child} {id : NodeId} :
    a.form? (some statement) = some (.exportDeclaration (some clause) ns none) → id ∈ clause →
      a.form? (some id) = some (.exportSpecifier propertyName name) →
      Counts a statement
        { kind := .specifier, node := id, localName := a.identifierText (propertyName.or name) }
  | declarator {n : Node} {word : VariableWord} {ids : List NodeId} {name value : Child} {id : NodeId} :
    a.get? statement = some n → n.form = .variableStatement word ids → n.modifiers.exported = true →
      id ∈ ids → a.form? (some id) = some (.variableDeclaration name value) →
      Counts a statement { kind := .declarator, node := id, localName := a.identifierText name }

/-- A class or function that is exported by its own declaration counts. -/
theorem counts_declarationExport {statement : NodeId} {n : Node} {name : Child}
    (hget : a.get? statement = some n) (hname : n.form.declaredName? = some name)
    (hexported : n.modifiers.exported = true) :
    a.Counts statement (a.declarationExport n.modifiers statement name) := by
  rw [declarationExport]
  cases hdefault : n.modifiers.isDefault with
  | true => exact .defaultDeclaration hget hname hexported hdefault
  | false => exact .declaration hget hname hexported hdefault

/-- The exports of a statement all count. -/
theorem counts_of_mem_exports (hlawful : a.Lawful) {statement : NodeId} {x : Export}
    (hx : x ∈ a.exports statement) : a.Counts statement x := by
  rw [exports] at hx
  cases hget : a.get? statement with
  | none => rw [hget] at hx; exact nomatch hx
  | some n =>
      have hform := form?_of_get? hget
      rw [hget] at hx
      dsimp only at hx
      split at hx <;> rename_i hn
      · split at hx
        · rename_i hexported
          obtain ⟨id, hid, hx⟩ := List.mem_filterMap.mp hx
          rw [variableExport?] at hx
          split at hx <;> cases hx
          exact .declarator hget hn hexported hid ‹_›
        · cases hx
      · split at hx
        · obtain rfl := List.mem_singleton.mp hx
          exact counts_declarationExport hget (by rw [hn]; rfl) ‹_›
        · cases hx
      · split at hx
        · obtain rfl := List.mem_singleton.mp hx
          exact counts_declarationExport hget (by rw [hn]; rfl) ‹_›
        · cases hx
      · rw [hn] at hform
        obtain ⟨id, hid, hx⟩ := List.mem_filterMap.mp hx
        obtain ⟨_, hpairs⟩ := hlawful.of_form? hform
        obtain ⟨propertyName, name, hspecifier⟩ := hpairs id hid
        rw [specifierExport?, hspecifier] at hx
        cases hx
        exact .specifier hform hid hspecifier
      · rw [hn] at hform
        obtain ⟨name, hname, rfl⟩ := List.mem_map.mp hx
        exact .defaultExpression hform (identifierText_eq_some.mp (Option.mem_toList.mp hname))
      · cases hx

theorem mem_exports_of_declaredName? {statement : NodeId} {n : Node} {name : Child}
    (hget : a.get? statement = some n) (hname : n.form.declaredName? = some name)
    (hexported : n.modifiers.exported = true) :
    a.declarationExport n.modifiers statement name ∈ a.exports statement := by
  rw [exports, hget]
  cases hform : n.form with
  | classDeclaration | functionDeclaration =>
      rw [hform] at hname
      cases hname
      simp only [hform, hexported, if_true]
      exact List.mem_singleton_self _
  | _ => rw [hform] at hname; cases hname

/-- All exports that count are found. -/
theorem Counts.mem_exports {statement : NodeId} {x : Export} (h : a.Counts statement x) :
    x ∈ a.exports statement := by
  cases h with
  | defaultExpression hform hname =>
      obtain ⟨n, hget, hn⟩ := exists_get?_of_form? hform
      rw [exports, hget]
      simp only [hn, identifierText_eq_some.mpr hname]
      exact List.mem_singleton_self _
  | defaultDeclaration hget hname hexported hdefault =>
      have hmem := mem_exports_of_declaredName? hget hname hexported
      rwa [declarationExport, hdefault] at hmem
  | declaration hget hname hexported hdefault =>
      have hmem := mem_exports_of_declaredName? hget hname hexported
      rwa [declarationExport, hdefault] at hmem
  | specifier hform hid hspecifier =>
      obtain ⟨n, hget, hn⟩ := exists_get?_of_form? hform
      rw [exports, hget]
      simp only [hn]
      exact List.mem_filterMap.mpr ⟨_, hid, by rw [specifierExport?, hspecifier]⟩
  | declarator hget hn hexported hid hdeclarator =>
      rw [exports, hget]
      simp only [hn, hexported, if_true]
      exact List.mem_filterMap.mpr ⟨_, hid, by rw [variableExport?, hdeclarator]⟩

/-- The exports of a statement are those that count. -/
theorem mem_exports_iff (hlawful : a.Lawful) {statement : NodeId} {x : Export} :
    x ∈ a.exports statement ↔ a.Counts statement x :=
  ⟨counts_of_mem_exports hlawful, Counts.mem_exports⟩

/-! ## Where exports stand -/

/-- Whether one node ends before another one begins. -/
def Precedes (a : Arena) (id id' : NodeId) : Prop :=
  ∀ n n', a.get? id = some n → a.get? id' = some n' → n.stop ≤ n'.start

theorem map_filterMap_sublist {α β : Type} {f : α → Option β} {g : β → α}
    (h : ∀ x y, f x = some y → g y = x) (xs : List α) : ((xs.filterMap f).map g).Sublist xs := by
  induction xs with
  | nil => exact .slnil
  | cons x xs ih =>
      cases hx : f x with
      | none =>
          rw [List.filterMap_cons_none hx]
          exact .cons x ih
      | some y =>
          rw [List.filterMap_cons_some hx, List.map_cons, h x y hx]
          exact .cons_cons x ih

theorem node_variableExport? {id : NodeId} {x : Export} (h : a.variableExport? id = some x) : x.node = id := by
  rw [variableExport?] at h
  split at h <;> cases h
  rfl

theorem node_specifierExport? {id : NodeId} {x : Export} (h : a.specifierExport? id = some x) : x.node = id := by
  rw [specifierExport?] at h
  split at h <;> cases h <;> rfl

/-- The exports of a statement are the statement itself or some of its parts. -/
theorem exports_nodes_sublist {statement : NodeId} {n : Node} (hget : a.get? statement = some n) :
    ((a.exports statement).map (·.node)).Sublist [statement] ∨
      ((a.exports statement).map (·.node)).Sublist n.form.children.reduceOption := by
  have hone {x : Export} {c : Prop} [Decidable c] (hx : x.node = statement) :
      ((if c then [x] else []).map (·.node)).Sublist [statement] := by
    split
    · rw [List.map_singleton, hx]
    · exact List.nil_sublist _
  rw [exports, hget]
  dsimp only
  split <;> rename_i hform
  · refine .inr ?_
    rw [hform, Form.children, Form.reduceOption_map_some]
    split
    · exact map_filterMap_sublist (fun _ _ => node_variableExport?) _
    · exact List.nil_sublist _
  · exact .inl (hone rfl)
  · exact .inl (hone rfl)
  · refine .inr ?_
    rw [hform, Form.children, List.reduceOption_append, Option.getD_some, Form.reduceOption_map_some]
    exact (map_filterMap_sublist (fun _ _ => node_specifierExport?) _).trans (List.sublist_append_left _ _)
  · refine .inl ?_
    rw [List.map_map]
    cases a.identifierText (a.unparenthesized _) with
    | none => exact List.nil_sublist _
    | some name => exact .refl _
  · exact .inl (List.nil_sublist _)

end Arena

end PropContract
