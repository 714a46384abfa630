import PropContract.Contract.Component
import PropContract.Proofs.Contract.Renumber.Classify
import PropContract.Proofs.Scope.Reads

/-!
# Scopes under other numbers

A statement that stands in another table declares and exports the same names there, and names lead to the same
trees.
-/

namespace PropContract

variable {φ : NodeId → NodeId} {a b : Arena} {c e : Child} {n : Nat}

def Declaration.renumber (φ : NodeId → NodeId) (d : Declaration) : Declaration :=
  { d with node := φ d.node, initializer := d.initializer.map φ }

def Export.renumber (φ : NodeId → NodeId) (x : Export) : Export :=
  { x with node := φ x.node, declaration := x.declaration.map φ }

def Scope.renumber (φ : NodeId → NodeId) (scope : Scope) : Scope :=
  { scope with
    symbols := scope.symbols.map (Declaration.renumber φ)
    exports := scope.exports.map (Export.renumber φ) }

namespace Arena

/-- Whether a declaration names a class in both tables or in neither, and has its value in both. -/
structure AgreesOn (φ : NodeId → NodeId) (a b : Arena) (d : Declaration) : Prop where
  isClass : b.isClass (some (φ d.node)) = a.isClass (some d.node)
  initializer : Copied φ a b d.initializer

namespace Copied

theorem isClass (h : Copied φ a b c) : b.isClass (c.map φ) = a.isClass c := by
  rw [Arena.isClass, Arena.isClass, h.form?]
  rcases a.form? c with - | form
  · rfl
  · cases form <;> rfl

theorem boundNamesIn (h : Copied φ a b c) : b.boundNamesIn n (c.map φ) = a.boundNamesIn n c := by
  induction n generalizing c with
  | zero => rfl
  | succ n ih =>
      rw [Arena.boundNamesIn, Arena.boundNamesIn, h.form?]
      rcases hform : a.form? c with - | form
      · rfl
      · have elements {ids : List NodeId} (hids : ∀ id ∈ ids, some id ∈ form.children) :
            ((ids.map φ).flatMap fun e => b.boundNamesIn n (some e)) =
              ids.flatMap fun e => a.boundNamesIn n (some e) := by
          rw [List.flatMap_map]
          exact List.flatMap_congr fun id hid => ih (h.child hform (hids id hid))
        cases form
        case objectPattern => exact elements fun id hid => List.mem_map_of_mem hid
        case arrayPattern => exact elements fun id hid => List.mem_map_of_mem hid
        case bindingElement => exact ih (h.child hform (by simp [Form.children]))
        all_goals rfl

end Copied

/-- As many levels as there are nodes, or more, bind the same names. -/
theorem Forest.boundNamesIn_eq (h : a.Forest) (hn : a.size ≤ n) : a.boundNamesIn n c = a.boundNames c :=
  (h.binds_boundNamesIn ((a.reach_le c).trans hn)).unique (h.binds_boundNames c)

theorem Renumbers.boundNames (hab : Renumbers φ a b) (h : Copied φ a b c) :
    b.boundNames (c.map φ) = a.boundNames c := by
  rw [← hab.source.boundNamesIn_eq (Nat.le_max_left a.size b.size),
    ← hab.target.boundNamesIn_eq (Nat.le_max_right a.size b.size), h.boundNamesIn]

/-! ## Declarations -/

section

variable {module? : Option String}

theorem Copied.importDeclaration? (h : Copied φ a b c) (node : Child) (name : String → String) :
    b.importDeclaration? module? (c.map φ) (node.map φ) name =
      (a.importDeclaration? module? c node name).map (Declaration.renumber φ) := by
  rw [Arena.importDeclaration?, Arena.importDeclaration?, h.identifierText]
  cases a.identifierText c <;> cases node <;> rfl

theorem Copied.specifierDeclaration? {id : NodeId} (h : Copied φ a b (some id)) :
    b.specifierDeclaration? module? (φ id) = (a.specifierDeclaration? module? id).map (Declaration.renumber φ) := by
  rw [Arena.specifierDeclaration?, Arena.specifierDeclaration?, h.form?_some]
  rcases hid : a.form? (some id) with - | form
  · rfl
  · have specifier {propertyName name : Child} (hchildren : form.children = [propertyName, name]) :
        (b.importDeclaration? module? (name.map φ) (some (φ id)) fun localName =>
            (b.propertyNameText (propertyName.map φ)).getD localName) =
          (a.importDeclaration? module? name (some id) fun localName =>
            (a.propertyNameText propertyName).getD localName).map (Declaration.renumber φ) := by
      have hproperty := h.child hid (e := propertyName) (by simp [hchildren])
      have hname := h.child hid (e := name) (by simp [hchildren])
      rw [hproperty.propertyNameText]
      exact hname.importDeclaration? (some id) _
    cases form
    case importSpecifier => exact specifier rfl
    case exportSpecifier => exact specifier rfl
    all_goals rfl

end

theorem Renumbers.variableDeclarations (hab : Renumbers φ a b) {flags : SymbolFlags} {id : NodeId}
    (h : Copied φ a b (some id)) :
    b.variableDeclarations flags (φ id) = (a.variableDeclarations flags id).map (Declaration.renumber φ) := by
  rw [Arena.variableDeclarations, Arena.variableDeclarations, h.form?_some]
  rcases hid : a.form? (some id) with - | form
  · rfl
  · cases form
    case variableDeclaration name initializer =>
      have hname := h.child hid (e := name) (by simp [Form.children])
      simp only [Option.map_some, Form.renumber, hname.identifierText, hab.boundNames hname]
      split
      · rfl
      · simp [Declaration.renumber]
    all_goals rfl

theorem Renumbers.declarations (hab : Renumbers φ a b) {id : NodeId} (h : Copied φ a b (some id)) :
    b.declarations (φ id) = (a.declarations id).map (Declaration.renumber φ) := by
  rw [Arena.declarations, Arena.declarations, h.form?_some]
  rcases hid : a.form? (some id) with - | form
  · rfl
  · cases form
    case variableStatement word ids =>
      simp only [Option.map_some, Form.renumber]
      rw [List.flatMap_map, List.map_flatMap]
      exact List.flatMap_congr fun e he => hab.variableDeclarations (h.child hid (List.mem_map_of_mem he))
    case classDeclaration name heritage members =>
      have hname := h.child hid (e := name) (by simp [Form.children])
      simp only [Option.map_some, Form.renumber, hname.identifierText]
      cases a.identifierText name <;> rfl
    case functionDeclaration name body =>
      have hname := h.child hid (e := name) (by simp [Form.children])
      simp only [Option.map_some, Form.renumber, hname.identifierText]
      cases a.identifierText name <;> rfl
    case importDeclaration defaultName ns named specifier =>
      have hdefault := h.child hid (e := defaultName) (by simp [Form.children])
      have hns := h.child hid (e := ns) (by simp [Form.children])
      have hspecifier := h.child hid (e := specifier) (by simp [Form.children])
      have hnamed : ∀ e ∈ named.getD [], Copied φ a b (some e) := fun e he =>
        h.child hid (by simp [Form.children, he])
      simp only [Option.map_some, Form.renumber, hspecifier.stringText, hdefault.importDeclaration?,
        hns.importDeclaration?, List.map_append, List.map_filterMap, Option.toList_map]
      congr 1
      have hmap : (named.map (·.map φ)).getD [] = (named.getD []).map φ := by cases named <;> rfl
      rw [hmap, List.filterMap_map]
      exact List.filterMap_congr fun e he => (hnamed e he).specifierDeclaration?
    all_goals rfl

theorem agreesOn_of_importDeclaration? {module? : Option String} {node localName : Child} {name : String → String}
    {d : Declaration} (hnode : Copied φ a b node)
    (h : a.importDeclaration? module? localName node name = some d) : AgreesOn φ a b d := by
  simp only [importDeclaration?, Option.bind_eq_bind, Option.bind_eq_some_iff, Option.pure_def,
    Option.some.injEq] at h
  obtain ⟨text, -, id, rfl, rfl⟩ := h
  exact ⟨hnode.isClass, .missing⟩

theorem agreesOn_of_variableDeclarations {flags : SymbolFlags} {id : NodeId} (h : Copied φ a b (some id)) :
    ∀ d ∈ a.variableDeclarations flags id, AgreesOn φ a b d := by
  intro d hd
  rw [variableDeclarations] at hd
  split at hd
  · rename_i name initializer hform
    split at hd
    · obtain rfl := List.mem_singleton.mp hd
      exact ⟨h.isClass, h.child hform (by simp [Form.children])⟩
    · obtain ⟨text, -, rfl⟩ := List.mem_map.mp hd
      exact ⟨h.isClass, .missing⟩
  · cases hd

theorem agreesOn_of_declarations {id : NodeId} (h : Copied φ a b (some id)) :
    ∀ d ∈ a.declarations id, AgreesOn φ a b d := by
  intro d hd
  rw [declarations] at hd
  split at hd
  · rename_i word ids hform
    obtain ⟨e, he, hd⟩ := List.mem_flatMap.mp hd
    exact agreesOn_of_variableDeclarations (h.child hform (List.mem_map_of_mem he)) d hd
  · obtain ⟨text, -, rfl⟩ := List.mem_map.mp hd
    exact ⟨h.isClass, .missing⟩
  · obtain ⟨text, -, rfl⟩ := List.mem_map.mp hd
    exact ⟨h.isClass, .missing⟩
  · rename_i defaultName ns named specifier hform
    rw [List.mem_append, List.mem_append, Option.mem_toList, Option.mem_toList] at hd
    rcases hd with (hd | hd) | hd
    · exact agreesOn_of_importDeclaration? (h.child hform (by simp [Form.children])) hd
    · exact agreesOn_of_importDeclaration? (h.child hform (by simp [Form.children])) hd
    · obtain ⟨e, he, hd⟩ := List.mem_filterMap.mp hd
      have hspecifier : Copied φ a b (some e) := h.child hform (by simp [Form.children, he])
      rw [specifierDeclaration?] at hd
      split at hd
      · exact agreesOn_of_importDeclaration? hspecifier hd
      · exact agreesOn_of_importDeclaration? hspecifier hd
      · cases hd
  · cases hd

/-! ## Exports and validator namespaces -/

theorem Copied.validatorNames {id : NodeId} (h : Copied φ a b (some id)) :
    b.validatorNames (φ id) = a.validatorNames id := by
  rw [Arena.validatorNames, Arena.validatorNames, h.form?_some]
  rcases hid : a.form? (some id) with - | form
  · rfl
  · cases form
    case importDeclaration defaultName ns named specifier =>
      have hdefault := h.child hid (e := defaultName) (by simp [Form.children])
      have hns := h.child hid (e := ns) (by simp [Form.children])
      have hspecifier := h.child hid (e := specifier) (by simp [Form.children])
      simp only [Option.map_some, Form.renumber, hspecifier.stringText, hdefault.identifierText, hns.identifierText]
    all_goals rfl

theorem Copied.variableExport? {id : NodeId} (h : Copied φ a b (some id)) :
    b.variableExport? (φ id) = (a.variableExport? id).map (Export.renumber φ) := by
  rw [Arena.variableExport?, Arena.variableExport?, h.form?_some]
  rcases hid : a.form? (some id) with - | form
  · rfl
  · cases form
    case variableDeclaration name initializer =>
      have hname := h.child hid (e := name) (by simp [Form.children])
      simp only [Option.map_some, Form.renumber, hname.identifierText]
      rfl
    all_goals rfl

theorem Copied.specifierExport? {id : NodeId} (h : Copied φ a b (some id)) :
    b.specifierExport? (φ id) = (a.specifierExport? id).map (Export.renumber φ) := by
  rw [Arena.specifierExport?, Arena.specifierExport?, h.form?_some]
  rcases hid : a.form? (some id) with - | form
  · rfl
  · have specifier {propertyName name : Child} (hchildren : form.children = [propertyName, name]) :
        b.identifierText ((propertyName.map φ).or (name.map φ)) = a.identifierText (propertyName.or name) := by
      have hproperty := h.child hid (e := propertyName) (by simp [hchildren])
      have hname := h.child hid (e := name) (by simp [hchildren])
      cases propertyName with
      | none => exact hname.identifierText
      | some propertyName => exact hproperty.identifierText
    cases form
    case importSpecifier =>
      simp only [Option.map_some, Form.renumber, specifier rfl]
      rfl
    case exportSpecifier =>
      simp only [Option.map_some, Form.renumber, specifier rfl]
      rfl
    all_goals rfl

theorem Renumbers.exports (hab : Renumbers φ a b) {id : NodeId} (h : Copied φ a b (some id)) :
    b.exports (φ id) = (a.exports id).map (Export.renumber φ) := by
  obtain ⟨node, node', hnode, hnode', hmodifiers, hform, hchildren⟩ := h.node
  rw [Arena.exports, Arena.exports, hnode, hnode']
  dsimp only
  rw [hform, hmodifiers]
  have declared {name : Child} (hname : name ∈ node.form.children) :
      b.declarationExport node.modifiers (φ id) (name.map φ) =
        (a.declarationExport node.modifiers id name).renumber φ := by
    rw [Arena.declarationExport, Arena.declarationExport, (hchildren name hname).identifierText]
    rfl
  generalize node.form = form at hchildren declared
  cases form
  case variableStatement word ids =>
    simp only [Form.renumber]
    split
    · rw [List.filterMap_map, List.map_filterMap]
      exact List.filterMap_congr fun e he => (hchildren _ (List.mem_map_of_mem he)).variableExport?
    · rfl
  case classDeclaration name heritage members =>
    simp only [Form.renumber]
    split
    · rw [declared (by simp [Form.children])]
      rfl
    · rfl
  case functionDeclaration name body =>
    simp only [Form.renumber]
    split
    · rw [declared (by simp [Form.children])]
      rfl
    · rfl
  case exportDeclaration clause ns specifier =>
    cases clause with
    | none => rfl
    | some clause =>
        cases specifier with
        | some specifier => rfl
        | none =>
            simp only [Form.renumber, Option.map_some, Option.map_none]
            rw [List.filterMap_map, List.map_filterMap]
            refine List.filterMap_congr fun e he => Copied.specifierExport? (hchildren _ ?_)
            simp [Form.children, he]
  case exportAssignment e =>
    obtain ⟨heq, hcopied⟩ := hab.unparenthesized (hchildren e (by simp [Form.children]))
    simp only [Form.renumber, heq, hcopied.identifierText]
    cases a.identifierText (a.unparenthesized e) <;> rfl
  all_goals rfl

end Arena

namespace Scope

open Arena (AgreesOn Renumbers Copied)

/-! ## Symbols -/

theorem declare_renumber (symbols : List Symbol) (d : Declaration) :
    declare (symbols.map (Declaration.renumber φ)) (d.renumber φ) =
      (declare symbols d).map (Declaration.renumber φ) := by
  induction symbols with
  | nil => rfl
  | cons s symbols ih =>
      simp only [List.map_cons, declare, ih]
      by_cases hname : s.name = d.name <;> simp [hname, Declaration.renumber, merge]

theorem foldl_declare_renumber (ds : List Declaration) (symbols : List Symbol) :
    (ds.map (Declaration.renumber φ)).foldl declare (symbols.map (Declaration.renumber φ)) =
      (ds.foldl declare symbols).map (Declaration.renumber φ) := by
  induction ds generalizing symbols with
  | nil => rfl
  | cons d ds ih => rw [List.map_cons, List.foldl_cons, List.foldl_cons, declare_renumber, ih]

theorem markExported_renumber (exports : List Export) (symbols : List Symbol) :
    markExported (exports.map (Export.renumber φ)) (symbols.map (Declaration.renumber φ)) =
      (markExported exports symbols).map (Declaration.renumber φ) := by
  rw [markExported, markExported, List.map_map, List.map_map]
  refine List.map_congr_left fun s _ => ?_
  have hany : ((exports.map (Export.renumber φ)).any fun e => e.localName == some s.name) =
      exports.any fun e => e.localName == some s.name := by
    rw [List.any_map]
    rfl
  simp only [Function.comp_apply, Declaration.renumber, hany]
  split <;> rfl

theorem agreesOn_declare {symbols : List Symbol} {d : Declaration} (hsymbols : ∀ s ∈ symbols, AgreesOn φ a b s)
    (hd : AgreesOn φ a b d) : ∀ s ∈ declare symbols d, AgreesOn φ a b s := by
  induction symbols with
  | nil => exact List.forall_mem_singleton.mpr hd
  | cons s symbols ih =>
      obtain ⟨hs, hsymbols⟩ := List.forall_mem_cons.mp hsymbols
      rw [declare]
      split
      · exact List.forall_mem_cons.mpr ⟨⟨hs.isClass, hs.initializer⟩, hsymbols⟩
      · exact List.forall_mem_cons.mpr ⟨hs, ih hsymbols⟩

theorem agreesOn_foldl_declare {ds : List Declaration} {symbols : List Symbol}
    (hsymbols : ∀ s ∈ symbols, AgreesOn φ a b s) (hds : ∀ d ∈ ds, AgreesOn φ a b d) :
    ∀ s ∈ ds.foldl declare symbols, AgreesOn φ a b s := by
  induction ds generalizing symbols with
  | nil => exact hsymbols
  | cons d ds ih =>
      obtain ⟨hd, hds⟩ := List.forall_mem_cons.mp hds
      exact ih (agreesOn_declare hsymbols hd) hds

theorem agreesOn_markExported {exports : List Export} {symbols : List Symbol}
    (hsymbols : ∀ s ∈ symbols, AgreesOn φ a b s) : ∀ s ∈ markExported exports symbols, AgreesOn φ a b s := by
  intro s hs
  obtain ⟨s', hs', rfl⟩ := mem_markExported hs
  exact ⟨(hsymbols s' hs').isClass, (hsymbols s' hs').initializer⟩

/-! ## Lookups -/

theorem lookup_renumber (scope : Scope) (name : String) :
    (scope.renumber φ).lookup name = (scope.lookup name).map (Declaration.renumber φ) := by
  rw [lookup, lookup, renumber, List.find?_map]
  rfl

variable {scope : Scope} (hab : Renumbers φ a b) (hscope : ∀ s ∈ scope.symbols, AgreesOn φ a b s)

include hab hscope

theorem renumbers_resolver : (scope.resolver a).Renumbers φ a b ((scope.renumber φ).resolver b) := by
  have copied (name : String) : ∀ s, scope.lookup name = some s →
      b.unparenthesized (s.initializer.map φ) = (a.unparenthesized s.initializer).map φ ∧
        Copied φ a b (a.unparenthesized s.initializer) := fun s hs =>
    hab.unparenthesized (hscope s (List.mem_of_find?_eq_some hs)).initializer
  refine ⟨fun name => ?_, fun name id => ?_, fun name id => ?_, rfl⟩
  · change (scope.renumber φ).resolve b name = (scope.resolve a name).renumber φ
    rw [resolve, resolve, lookup_renumber]
    rcases hlookup : scope.lookup name with - | s
    · rfl
    · obtain ⟨heq, hcopied⟩ := copied name s hlookup
      simp only [Option.map_some, Declaration.renumber, heq]
      split
      · rfl
      · rcases hvalue : a.unparenthesized s.initializer with - | id
        · rfl
        · rw [hvalue] at hcopied
          simp only [Option.map_some]
          rw [hcopied.form?_some]
          rcases a.form? (some id) with - | form
          · rfl
          · cases form <;> rfl
  all_goals
    intro hresolve
    change scope.resolve a name = _ at hresolve
    rw [resolve] at hresolve
    split at hresolve
    · cases hresolve
    · rename_i s hlookup
      split at hresolve
      · cases hresolve
      · split at hresolve
        · cases hresolve
        · rename_i value hvalue
          have hcopied := (copied name s hlookup).2
          rw [hvalue] at hcopied
          split at hresolve <;> cases hresolve
          exact hcopied

theorem classOf_renumber (name : String) :
    b.classOf (scope.renumber φ) name = (a.classOf scope name).map φ := by
  rw [Arena.classOf, Arena.classOf, lookup_renumber]
  rcases hlookup : scope.lookup name with - | s
  · rfl
  · have hs := hscope s (List.mem_of_find?_eq_some hlookup)
    obtain ⟨heq, hcopied⟩ := hab.unparenthesized hs.initializer
    simp only [Option.map_some, Declaration.renumber, heq, hs.isClass, hcopied.isClass]
    split
    · rfl
    · split <;> rfl

end Scope

end PropContract
