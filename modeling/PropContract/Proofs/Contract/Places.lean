import Mathlib.Algebra.Group.Nat.Defs
import PropContract.Contract.FileCheck
import PropContract.Proofs.Contract.Limits
import PropContract.Proofs.Scope.Order

/-!
# Where diagnostics point

Every error and every finding of a file lies on whole characters of its text. What is found in a contract
is found at a node of the tree, and a file has either errors of syntax or findings, never both.
-/

namespace PropContract

open Text

namespace Arena

/-- Whether a child is a node of the tree. -/
def Has (a : Arena) (c : Child) : Prop := ∃ id n, c = some id ∧ a.get? id = some n

variable {a : Arena}

theorem has_of_form? {c : Child} {form : Form} (h : a.form? c = some form) : a.Has c := by
  cases c with
  | none => exact nomatch h
  | some id =>
      obtain ⟨n, hn, -⟩ := exists_get?_of_form? h
      exact ⟨id, n, rfl, hn⟩

theorem Forest.has_of_mem_children (hforest : a.Forest) {p : Child} {id : NodeId} {form : Form}
    (hp : a.form? p = some form) (hid : some id ∈ form.children) : a.Has (some id) := by
  cases p with
  | none => exact nomatch hp
  | some p =>
      obtain ⟨n, hn, rfl⟩ := exists_get?_of_form? hp
      have hlt := (hforest.below p n hn id hid).trans (lt_size_of_get? hn)
      exact ⟨id, _, rfl, Array.getElem?_eq_getElem hlt⟩

theorem has_of_stringText {c : Child} {text : String} (h : a.stringText c = some text) : a.Has c := by
  rw [stringText] at h
  cases hform : a.form? c with
  | none =>
      rw [hform] at h
      cases h
  | some form => exact has_of_form? hform

theorem has_of_propertyNameText {c : Child} {key : String} (h : a.propertyNameText c = some key) :
    a.Has c := by
  rw [propertyNameText] at h
  cases hform : a.form? c with
  | none =>
      rw [hform] at h
      cases h
  | some form => exact has_of_form? hform

end Arena

namespace Classified

/-! ## Properties -/

variable {a : Arena} {r : Resolver} {field : String}

mutual

/-- Whether all properties inside an entry are nodes of the tree. -/
def StandsIn (a : Arena) : Classified → Prop
  | .nested properties _ => AllStandIn a properties
  | _ => True

def AllStandIn (a : Arena) : List (String × DeclaredProperty Classified) → Prop
  | [] => True
  | (_, p) :: rest => a.Has (some p.node) ∧ StandsIn a p.entry ∧ AllStandIn a rest

end

theorem allStandIn_iff {properties : List (String × DeclaredProperty Classified)} :
    AllStandIn a properties ↔ ∀ p ∈ properties, a.Has (some p.2.node) ∧ StandsIn a p.2.entry := by
  induction properties with
  | nil => simp [AllStandIn]
  | cons p rest ih => rw [AllStandIn, ih, List.forall_mem_cons, and_assoc]

theorem AllStandIn.ofList {properties : List (String × DeclaredProperty Classified)}
    (h : AllStandIn a properties) : AllStandIn a (Entries.ofList properties) :=
  allStandIn_iff.mpr fun p hp => allStandIn_iff.mp h p (Entries.mem_of_mem_ofList hp)

theorem Flat.standsIn {c : Classified} (h : c.Flat) : StandsIn a c := by
  cases c with
  | nested properties arrays =>
      have hshapes := h.1
      rw [shapes] at hshapes
      omega
  | _ => trivial

theorem standsIn_inArray {c : Classified} (h : StandsIn a c) : StandsIn a c.inArray := by
  cases c with
  | nested properties arrays => exact h
  | _ => trivial

/-- An element that is no assignment to a written name is a node, where it is a property. -/
theorem standsIn_of_ofElement {element : NodeId} {property : Option (String × DeclaredProperty Classified)}
    (hform : ∀ name value, a.form? (some element) = some (.propertyAssignment name value) →
      a.propertyNameText (a.memberName (some element)) = none)
    (h : ∀ reader, ofElement a r field reader element = pure property) :
    ∀ p ∈ property, a.Has (some p.2.node) ∧ StandsIn a p.2.entry := by
  let violation : Classifier Classified := pure (.invalid .illegalCall)
  have hrun := congrArg (fun m : Classifier _ => (m.run {}).1) (h ⟨fun _ => violation, fun _ => violation⟩)
  rw [Stateful.run_pure] at hrun
  subst hrun
  rw [ofElement]
  rcases hkey : a.propertyNameText (a.memberName (some element)) with - | key
  · rintro _ ⟨⟩
  rcases hget : a.form? (some element) with - | form
  · rintro _ ⟨⟩
  cases form with
  | propertyAssignment name value => exact absurd (hkey.symm.trans (hform name value hget)) (Option.some_ne_none key)
  | shorthandProperty | methodDeclaration =>
      rintro _ ⟨⟩
      exact ⟨Arena.has_of_form? hget, trivial⟩
  | _ => rintro _ ⟨⟩

mutual

theorem ValueRun.standsIn {depth : Nat} {e : Child} {s s' : Expansion} {entry : Classified × Bool}
    {log : List Meeting} : ValueRun a r field depth e s entry s' log → StandsIn a entry.1
  | .plain h => (flat_of_ofLeaf h).standsIn
  | .array _ _ _ h => standsIn_inArray h.standsIn
  | .shape _ _ _ h => h.standsIn

theorem ElementsRun.allStandIn {depth : Nat} {elements : List NodeId} {s s' : Expansion}
    {properties : List (String × DeclaredProperty Classified)} {log : List Meeting} :
    ElementsRun a r field depth elements s properties s' log → AllStandIn a properties
  | .nil => trivial
  | .plain hform h hrest => by
      rw [allStandIn_iff]
      intro p hp
      obtain hp | hp := List.mem_append.mp hp
      · exact standsIn_of_ofElement hform h p (Option.mem_toList.mp hp)
      · exact allStandIn_iff.mp hrest.allStandIn p hp
  | .assignment _ hform h hrest => ⟨Arena.has_of_form? hform, h.standsIn, hrest.allStandIn⟩

theorem TargetRun.standsIn {depth : Nat} {target : ShapeTarget} {s s' : Expansion} {c : Classified}
    {log : List Meeting} : TargetRun a r field depth target s c s' log → StandsIn a c
  | .inPlace h => h.standsIn
  | .again _ => trivial
  | .named _ h hresult => by
      subst hresult
      split
      · trivial
      · exact h.standsIn

theorem ObjectRun.standsIn {depth : Nat} {object : NodeId} {s s' : Expansion} {c : Classified}
    {log : List Meeting} : ObjectRun a r field depth object s c s' log → StandsIn a c
  | .past _ => trivial
  | .expand _ h => h.allStandIn.ofList

end

/-- All classified properties are nodes of the tree, also those inside shapes. -/
theorem classify_allStandIn (hforest : a.Forest) (r : Resolver) (field : String) (propTypes : Child) :
    AllStandIn a (classify a r field propTypes) := by
  obtain ⟨log, properties, heq, h⟩ := classificationRun_classification hforest r field propTypes
  rw [classify, heq]
  exact h.allStandIn.ofList

mutual

theorem has_of_uncovered : (c : Classified) → {node : NodeId} → {v? : Option Child} → StandsIn a c →
    a.Has (some node) → ∀ f ∈ uncovered a c node v?, a.Has f.node
  | .valid _, _, v?, _, _ => by cases v? <;> exact nofun
  | .invalid _, _, none, _, hnode => by
      rw [uncovered]
      exact List.forall_mem_singleton.mpr hnode
  | .invalid _, _, some _, _, _ => nofun
  | .nested properties _, _, none, h, _ => has_of_uncoveredAll properties h
  | .nested properties _, _, some v, h, _ => by
      rw [uncovered]
      split
      · exact has_of_uncoveredAll properties h
      · exact nofun

theorem has_of_uncoveredAll : (properties : List (String × DeclaredProperty Classified)) →
    {overrides : Entries Child} → AllStandIn a properties →
    ∀ f ∈ uncoveredAll a properties overrides, a.Has f.node
  | [], _, _ => nofun
  | (_, p) :: rest, _, ⟨hnode, hentry, hrest⟩ => by
      rw [uncoveredAll]
      exact List.forall_mem_append.mpr
        ⟨has_of_uncovered p.entry hentry hnode, has_of_uncoveredAll rest hrest⟩

end

end Classified

/-! ## Findings -/

namespace Arena

variable {a : Arena}

/-- The elements of an object are nodes, and so are those that are at fault. -/
theorem has_of_elementFindings (hforest : a.Forest) {value : Child → List Finding}
    (hvalue : ∀ v, ∀ f ∈ value v, a.Has f.node) {object : Child} {elements : List NodeId}
    (hobject : a.form? object = some (.objectLiteral elements)) :
    ∀ f ∈ a.elementFindings value object, a.Has f.node := by
  intro f hf
  obtain ⟨element, helement, hf⟩ := List.mem_flatMap.mp hf
  rw [literalElements, hobject] at helement
  obtain ⟨id, hid, rfl⟩ := List.mem_map.mp helement
  split at hf
  · exact hvalue _ f hf
  · cases hf
  · obtain rfl := List.mem_singleton.mp hf
    exact hforest.has_of_mem_children hobject helement

theorem has_of_valueFindings (hforest : a.Forest) (n : Nat) (v : Child) :
    ∀ f ∈ a.valueFindings n v, a.Has f.node := by
  have single {form : Form} {v : Child} (hform : a.form? v = some form) (violation : Violation)
      (args : List String) : ∀ f ∈ [({ violation, node := v, args } : Finding)], a.Has f.node :=
    List.forall_mem_singleton.mpr (has_of_form? hform)
  induction n generalizing v with
  | zero =>
      rw [valueFindings]
      split
      · rename_i hform
        obtain ⟨form, hform⟩ := Option.isSome_iff_exists.mp hform
        exact single hform _ _
      · exact nofun
  | succ n ih =>
      rw [valueFindings]
      rcases hform : a.form? (a.unparenthesized v) with - | form
      · exact nofun
      have word (text : String) : ∀ f ∈ (if overrideWords.contains text then []
          else [({ violation := .badTypeName, node := a.unparenthesized v
                   args := [text, overrideWordList] } : Finding)]), a.Has f.node := by
        split
        · exact nofun
        · exact single hform _ _
      cases form with
      | objectLiteral elements => exact has_of_elementFindings hforest ih hform
      | literal kind text =>
          cases kind with
          | string | plainTemplate => exact word text
          | _ => exact single hform _ _
      | arrayLiteral elements =>
          cases elements with
          | nil => exact nofun
          | cons first rest => exact ih first
      | identifier => exact nofun
      | _ => exact single hform _ _

theorem has_of_collisions (propTypes : Child) (component : String) :
    ∀ f ∈ a.collisions propTypes component, a.Has f.node := by
  rw [collisions]
  split
  · intro f hf
    obtain ⟨element, -, hf⟩ := List.mem_filterMap.mp hf
    obtain ⟨key, hkey, hf⟩ := Option.bind_eq_some_iff.mp hf
    split at hf
    · obtain rfl := Option.some.inj hf
      exact has_of_propertyNameText hkey
    · cases hf
  · exact nofun

/-- A wrong word is a string. -/
theorem has_of_badIgnore {value : Child} {node : NodeId} {text : String}
    (h : a.componentOverrides value = .badIgnore node text) : a.Has (some node) := by
  rw [componentOverrides] at h
  split at h
  · cases h
  split at h
  · rename_i htext
    split at h
    · cases h
    · obtain ⟨rfl, -⟩ := ComponentOverrides.badIgnore.inj h
      exact has_of_stringText htext
  · split at h <;> cases h

/-- Overrides with an object are those of an object literal. -/
theorem object_of_componentOverrides {value object : Child} {entries : Entries Child}
    (h : a.componentOverrides value = .properties object entries) :
    object = none ∨ ∃ elements, a.form? object = some (.objectLiteral elements) := by
  rw [componentOverrides] at h
  split at h
  · obtain ⟨rfl, -⟩ := ComponentOverrides.properties.inj h
    exact .inl rfl
  split at h
  · split at h <;> cases h
  split at h
  · rename_i hobject
    obtain ⟨rfl, -⟩ := ComponentOverrides.properties.inj h
    rw [isObjectLiteral] at hobject
    split at hobject
    · exact .inr ⟨_, ‹_›⟩
    · cases hobject
  · obtain ⟨rfl, -⟩ := ComponentOverrides.properties.inj h
    exact .inl rfl

theorem has_of_overrideFindings (hforest : a.Forest) {object : Child}
    (hobject : object = none ∨ ∃ elements, a.form? object = some (.objectLiteral elements)) :
    ∀ f ∈ a.overrideFindings object, a.Has f.node := by
  obtain rfl | ⟨elements, hform⟩ := hobject
  · exact nofun
  · exact has_of_elementFindings hforest (has_of_valueFindings hforest maxMetaDepth) hform

end Arena

/-! ## Contracts -/

section

variable {a : Arena} {scope : Scope} {names : FieldNames} {fileName : String} {root : Child}

theorem has_of_exportFindings {exports : List Export} (hroot : a.Has root)
    (hexports : ∀ x ∈ exports, a.Has (some x.node)) : ∀ f ∈ exportFindings root exports, a.Has f.node := by
  rcases exports with - | ⟨x, - | ⟨y, rest⟩⟩
  · exact List.forall_mem_singleton.mpr hroot
  · exact nofun
  · exact List.forall_mem_map.mpr hexports

/-- What is found in a contract is found at a node of the tree. -/
theorem has_of_checkContract (hforest : a.Forest) (hroot : a.Has root)
    (hexports : ∀ x ∈ scope.exports, a.Has (some x.node)) :
    ∀ f ∈ (checkContract a scope names fileName root).findings, a.Has f.node := by
  have hfindings := has_of_exportFindings hroot hexports
  rw [checkContract]
  rcases chosenComponent a scope names root with - | component
  · exact hfindings
  rcases hoverrides : a.componentOverrides component.overrides with - | ⟨node, value⟩ | ⟨object, entries⟩
  · simp only [hoverrides]
    exact hfindings
  · simp only [hoverrides]
    exact List.forall_mem_append.mpr
      ⟨hfindings, List.forall_mem_singleton.mpr (Arena.has_of_badIgnore hoverrides)⟩
  · simp only [hoverrides, List.forall_mem_append]
    refine ⟨⟨⟨hfindings, fun f hf => ?_⟩, ?_⟩, ?_⟩
    · obtain ⟨name, -, hf⟩ := List.mem_flatMap.mp hf
      exact Arena.has_of_collisions component.propTypes name f hf
    · exact Classified.has_of_uncoveredAll _ (Classified.classify_allStandIn hforest _ _ _)
    · exact Arena.has_of_overrideFindings hforest (Arena.object_of_componentOverrides hoverrides)

/-- There is a model only where nothing is found. -/
theorem findings_of_model (h : (checkContract a scope names fileName root).model.isSome) :
    (checkContract a scope names fileName root).findings = [] := by
  revert h
  rw [checkContract]
  rcases chosenComponent a scope names root with - | component
  · exact nofun
  rcases hoverrides : a.componentOverrides component.overrides with - | ⟨node, value⟩ | ⟨object, entries⟩
  · simp only [hoverrides]
    exact nofun
  · simp only [hoverrides]
    exact nofun
  · simp only [hoverrides]
    exact fun hmodel => List.isEmpty_iff.mp (Option.isSome_ite.mp hmodel)

end

/-! ## Files -/

/-- Whether a diagnostic points at whole characters of a text, so that there is a text to cut out. -/
structure Diagnostic.PointsInto (d : Diagnostic) (source : String) : Prop where
  le : d.start + d.length ≤ source.utf8ByteSize
  first : (Source.ofString source).OnBoundary d.start
  last : (Source.ofString source).OnBoundary (d.start + d.length)
  slice : (Source.ofString source).Between d.start (d.start + d.length)
    ((Source.ofString source).slice d.start (d.start + d.length))

theorem Diagnostic.PointsInto.of_bounds {d : Diagnostic} {source : String}
    (hfirst : (Source.ofString source).OnBoundary d.start)
    (hlast : (Source.ofString source).OnBoundary (d.start + d.length)) : d.PointsInto source where
  le := hlast.le
  first := hfirst
  last := hlast
  slice := hfirst.between_slice hlast (Nat.le_add_right _ _)

/-- Whether all findings of a check are about nodes of the tree. -/
def CheckResult.FoundIn (result : CheckResult) (a : Arena) : Prop :=
  ∀ f ∈ result.findings, a.Has f.node

theorem Violation.code_contract (v : Violation) : v.message.code / 1000 = 9 := by
  cases v <;> rfl

theorem Message.code_syntax {m : Message} (h : m.isSyntax) : m.code / 1000 = 1 := by
  rw [isSyntax, Bool.and_eq_true, decide_eq_true_eq, decide_eq_true_eq] at h
  omega

/-- A finding at a node on whole characters is reported there. -/
theorem Finding.pointsInto {f : Finding} {a : Arena} {source : String} (file : String)
    (ha : a.Bounded (.ofString source)) (hf : a.Has f.node) :
    (f.toDiagnostic a file).PointsInto source := by
  obtain ⟨id, n, hnode, hn⟩ := hf
  obtain ⟨hle, hstart, hstop⟩ := ha id n hn
  have hdiagnostic : f.toDiagnostic a file =
      .ofMessage file n.start n.width f.violation.message f.args := by
    rw [toDiagnostic, hnode, Option.bind_some, hn]
  rw [hdiagnostic]
  refine .of_bounds hstart ?_
  change (Source.ofString source).OnBoundary (n.start + (n.stop - n.start))
  rwa [Nat.add_sub_cancel' hle]

namespace Module

/-- Whatever the text is, its contract is checked at nodes of its tree. -/
theorem foundIn_checkContract (names : FieldNames) (path source : String) :
    let m := Module.parse path source
    (checkContract m.arena (.ofModule m) names path (some m.root)).FoundIn m.arena := by
  have hforest := forest_arena path source
  obtain ⟨statements, hroot⟩ := exists_root path source
  generalize parse path source = m at hforest hroot
  refine has_of_checkContract hforest (Arena.has_of_form? hroot) fun x hx => ?_
  obtain ⟨statement, -, hx⟩ := List.mem_flatMap.mp hx
  obtain ⟨n, hn, hnode | hnode⟩ := Arena.within_of_mem_exports hx
  · exact ⟨x.node, n, rfl, hnode ▸ hn⟩
  · exact hforest.has_of_mem_children (p := some statement) (by rw [Arena.form?]; simp [hn]) hnode

end Module

namespace FileResult

/-- Every reported place is real. In a text of less than 4 GiB the diagnostics point at whole characters
of it, by offsets that do not overflow, and what is found in its contract is found at nodes of the tree. A
file has either errors of syntax or findings, and a model only if it has neither. -/
theorem ofSource_places (names : FieldNames) (path source : String) (hsize : source.utf8ByteSize < 2 ^ 32) :
    let m := Module.parse path source
    let result := FileResult.ofSource names path source
    (∀ d ∈ result.diagnostics, d.PointsInto source ∧ d.start + d.length < 2 ^ 32) ∧
      (checkContract m.arena (.ofModule m) names path (some m.root)).FoundIn m.arena ∧
      (result.parseFailed = true ∧ result.model = none ∧ result.diagnostics ≠ [] ∧
          (∀ d ∈ result.diagnostics, d.code / 1000 = 1) ∨
        result.parseFailed = false ∧ (∀ d ∈ result.diagnostics, d.code / 1000 = 9) ∧
          (result.model.isSome → result.diagnostics = [])) := by
  obtain ⟨hbounded, herrors⟩ := Module.placed_parse path source
  have hfound := Module.foundIn_checkContract names path source
  have inside {d : Diagnostic} (hd : d.PointsInto source) :
      d.PointsInto source ∧ d.start + d.length < 2 ^ 32 := ⟨hd, hd.le.trans_lt hsize⟩
  rw [ofSource]
  generalize Module.parse path source = m at hbounded herrors hfound ⊢
  dsimp only at hfound ⊢
  by_cases hclean : m.errors.isEmpty = true
  · rw [if_pos hclean]
    exact
      ⟨List.forall_mem_map.mpr fun f hf => inside (f.pointsInto path hbounded (hfound f hf)), hfound,
        .inr ⟨rfl, List.forall_mem_map.mpr fun f _ => f.violation.code_contract,
          fun hmodel => List.map_eq_nil_iff.mpr (findings_of_model hmodel)⟩⟩
  · rw [if_neg hclean]
    exact
      ⟨List.forall_mem_map.mpr fun e he => inside (.of_bounds (herrors e he).first (herrors e he).last), hfound,
        .inl ⟨rfl, rfl, fun hnil => hclean (List.isEmpty_iff.mpr (List.map_eq_nil_iff.mp hnil)),
          List.forall_mem_map.mpr fun e he => Message.code_syntax (herrors e he).syntactic⟩⟩

/-- Two findings behind a character of two bytes. -/
theorem ofSource_places_findings :
    let source := "/* é */ class A { static propTypes = {a: 1} }"
    let result := FileResult.ofSource {} "A.js" source
    source.utf8ByteSize < 2 ^ 32 ∧
      result.diagnostics.map (fun d => (d.code, d.start, d.length)) = [(9001, 0, 46), (9105, 39, 4)] ∧
      ∀ d ∈ result.diagnostics, d.PointsInto source ∧ d.start + d.length < 2 ^ 32 := by
  have hsize : "/* é */ class A { static propTypes = {a: 1} }".utf8ByteSize < 2 ^ 32 := by decide
  exact ⟨hsize, by decide +kernel, (ofSource_places {} "A.js" _ hsize).1⟩

end FileResult

end PropContract
