import PropContract.Contract.Check
import PropContract.Proofs.Contract.Renumber.Classify
import PropContract.Proofs.Scope.Renumber

/-!
# Contracts under other numbers

Overrides mean the same under other numbers, the same faults are found in the same order, and the same types come
out.
-/

namespace PropContract

variable {φ : NodeId → NodeId} {a b : Arena} {c e : Child} {n : Nat}

def Finding.renumber (φ : NodeId → NodeId) (f : Finding) : Finding :=
  { f with node := f.node.map φ }

def Component.renumber (φ : NodeId → NodeId) (c : Component) : Component :=
  { c with
    classNode := c.classNode.map φ
    propTypes := c.propTypes.map φ
    overrides := c.overrides.map φ }

def CheckResult.renumber (φ : NodeId → NodeId) (r : CheckResult) : CheckResult :=
  { r with
    findings := r.findings.map (Finding.renumber φ)
    component := r.component.map (Component.renumber φ) }

def ComponentOverrides.renumber (φ : NodeId → NodeId) : ComponentOverrides → ComponentOverrides
  | .ignored => .ignored
  | .badIgnore node value => .badIgnore (φ node) value
  | .properties object entries => .properties (object.map φ) (entries.map fun (key, v) => (key, v.map φ))

namespace Arena

/-! ## Override objects -/

namespace Copied

theorem overrideEntry (h : Copied φ a b e) :
    b.overrideEntry? (e.map φ) = (a.overrideEntry? e).map (fun (key, v) => (key, v.map φ)) ∧
      ∀ entry ∈ a.overrideEntry? e, Copied φ a b entry.2 := by
  obtain ⟨hname, hcopied⟩ := h.memberName
  rw [ Arena.overrideEntry?, Arena.overrideEntry?, hname, hcopied.propertyNameText, h.form?]
  rcases a.propertyNameText (a.memberName e) with - | key
  · exact ⟨rfl, fun _ h => by cases h⟩
  · rcases hform : a.form? e with - | form
    · exact ⟨rfl, fun _ h => by cases h⟩
    · cases form
      case propertyAssignment name value =>
        refine ⟨rfl, fun entry hentry => ?_⟩
        obtain rfl : (key, value) = entry := Option.some.inj hentry
        exact h.child hform (by simp [Form.children])
      case shorthandProperty name =>
        refine ⟨rfl, fun entry hentry => ?_⟩
        obtain rfl : (key, some name) = entry := Option.some.inj hentry
        exact h.child hform (by simp [Form.children])
      case methodDeclaration name body =>
        refine ⟨rfl, fun entry hentry => ?_⟩
        obtain rfl : (key, e) = entry := Option.some.inj hentry
        exact h
      all_goals exact ⟨rfl, fun _ h => by cases h⟩

theorem overrideEntries (h : Copied φ a b c) :
    b.overrideEntries (c.map φ) = (a.overrideEntries c).map (fun (key, v) => (key, v.map φ)) ∧
      ∀ entry ∈ a.overrideEntries c, Copied φ a b entry.2 := by
  obtain ⟨heq, hcopied⟩ := h.literalElements
  constructor
  · rw [Arena.overrideEntries, Arena.overrideEntries, ← Entries.ofList_map, heq, List.filterMap_map, List.map_filterMap]
    exact congrArg _ (List.filterMap_congr fun e he => (hcopied e he).overrideEntry.1)
  · intro entry hentry
    obtain ⟨e, he, hsome⟩ := List.mem_filterMap.mp (Entries.mem_of_mem_ofList hentry)
    exact (hcopied e he).overrideEntry.2 entry hsome

/-! ## Faults of overrides -/

theorem elementFindings {value value' : Child → List Finding}
    (hvalue : ∀ e, Copied φ a b e → value' (e.map φ) = (value e).map (Finding.renumber φ)) (h : Copied φ a b c) :
    b.elementFindings value' (c.map φ) = (a.elementFindings value c).map (Finding.renumber φ) := by
  obtain ⟨heq, hcopied⟩ := h.literalElements
  rw [Arena.elementFindings, Arena.elementFindings, heq, List.flatMap_map, List.map_flatMap]
  refine List.flatMap_congr fun e he => ?_
  rw [(hcopied e he).form?]
  rcases hform : a.form? e with - | form
  · rfl
  · cases form
    case propertyAssignment name v => exact hvalue v ((hcopied e he).child hform (by simp [Form.children]))
    all_goals rfl

end Copied

namespace Renumbers

variable (hab : Renumbers φ a b)

include hab

theorem valueFindings (h : Copied φ a b c) :
    b.valueFindings n (c.map φ) = (a.valueFindings n c).map (Finding.renumber φ) := by
  induction n generalizing c with
  | zero =>
      obtain ⟨heq, hcopied⟩ := hab.unparenthesized h
      rw [Arena.valueFindings, Arena.valueFindings, heq, hcopied.form?, Option.isSome_map]
      split <;> rfl
  | succ n ih =>
      obtain ⟨heq, hcopied⟩ := hab.unparenthesized h
      rw [Arena.valueFindings, Arena.valueFindings, heq, hcopied.form?]
      rcases hform : a.form? (a.unparenthesized c) with - | form
      · rfl
      · cases form
        case objectLiteral => exact hcopied.elementFindings fun _ => ih
        case arrayLiteral elements =>
          cases elements with
          | nil => rfl
          | cons first rest => exact ih (hcopied.child hform List.mem_cons_self)
        case literal kind text =>
          cases kind <;> simp only [Option.map_some, Form.renumber]
          case string => split <;> rfl
          case plainTemplate => split <;> rfl
          all_goals rfl
        all_goals rfl

theorem overrideFindings (h : Copied φ a b c) :
    b.overrideFindings (c.map φ) = (a.overrideFindings c).map (Finding.renumber φ) :=
  h.elementFindings fun _ => hab.valueFindings

theorem collisions (h : Copied φ a b c) (component : String) :
    b.collisions (c.map φ) component = (a.collisions c component).map (Finding.renumber φ) := by
  obtain ⟨heq, hcopied⟩ := hab.unparenthesized h
  rw [Arena.collisions, Arena.collisions, heq, hcopied.form?]
  rcases hform : a.form? (a.unparenthesized c) with - | form
  · rfl
  · cases form
    case objectLiteral elements =>
      simp only [Option.map_some, Form.renumber]
      rw [List.filterMap_map, List.map_filterMap]
      refine List.filterMap_congr fun e he => ?_
      have helement : Copied φ a b (some e) := hcopied.child hform (List.mem_map_of_mem he)
      have hname := helement.memberName.1
      have hkey := helement.memberName.2.propertyNameText
      simp only [Option.map_some] at hname
      simp only [Function.comp_apply, hname, hkey]
      rcases a.propertyNameText (a.memberName (some e)) with - | key
      · rfl
      · simp only [Option.bind_eq_bind, Option.bind_some]
        split <;> rfl
    all_goals rfl

theorem componentOverrides (h : Copied φ a b c) :
    b.componentOverrides (c.map φ) = (a.componentOverrides c).renumber φ ∧
      ∀ object entries, a.componentOverrides c = .properties object entries →
        Copied φ a b object ∧ ∀ entry ∈ entries, Copied φ a b entry.2 := by
  obtain ⟨heq, hcopied⟩ := hab.unparenthesized h
  rw [Arena.componentOverrides, Arena.componentOverrides, heq]
  rcases hvalue : a.unparenthesized c with - | id
  · refine ⟨rfl, fun object entries heq => ?_⟩
    cases heq
    exact ⟨.missing, List.forall_mem_nil _⟩
  · rw [hvalue] at hcopied
    have htext := hcopied.stringText
    have hobject := hcopied.isObjectLiteral
    have hentries := hcopied.overrideEntries
    simp only [Option.map_some] at htext hobject hentries ⊢
    rw [htext, hobject, hentries.1]
    split
    · split <;> exact ⟨rfl, nofun⟩
    · split
      · refine ⟨rfl, fun object entries heq => ?_⟩
        cases heq
        exact ⟨hcopied, hentries.2⟩
      · refine ⟨rfl, fun object entries heq => ?_⟩
        cases heq
        exact ⟨.missing, List.forall_mem_nil _⟩

end Renumbers

end Arena

/-! ## What overrides mean -/

theorem Override.ofValueIn_copied (hab : Arena.Renumbers φ a b) (h : Arena.Copied φ a b c) :
    Override.ofValueIn b n (c.map φ) = Override.ofValueIn a n c := by
  induction n generalizing c with
  | zero => rfl
  | succ n ih =>
      obtain ⟨heq, hcopied⟩ := hab.unparenthesized h
      rw [Override.ofValueIn, Override.ofValueIn, heq, hcopied.form?]
      rcases hform : a.form? (a.unparenthesized c) with - | form
      · rfl
      · cases form
        case literal kind text => cases kind <;> rfl
        case arrayLiteral elements =>
          cases elements with
          | nil => rfl
          | cons first rest => exact congrArg Override.arrayOf (ih (hcopied.child hform List.mem_cons_self))
        case objectLiteral =>
          simp only [Option.map_some, Form.renumber]
          rw [hcopied.overrideEntries.1, List.map_map]
          exact congrArg Override.object <| List.map_congr_left fun entry hentry =>
            congrArg (entry.1, ·) (ih (hcopied.overrideEntries.2 entry hentry))
        all_goals rfl

theorem Override.ofValue_copied (hab : Arena.Renumbers φ a b) (h : Arena.Copied φ a b c) :
    Override.ofValue b (c.map φ) = Override.ofValue a c :=
  Override.ofValueIn_copied hab h

theorem Override.ofValue_entries_copied (hab : Arena.Renumbers φ a b) {entries : Entries Child}
    (h : ∀ entry ∈ entries, Arena.Copied φ a b entry.2) :
    ((entries.map fun (key, v) => (key, v.map φ)).map fun (key, v) => (key, Override.ofValue b v)) =
      entries.map fun (key, v) => (key, Override.ofValue a v) := by
  rw [List.map_map]
  exact List.map_congr_left fun entry hentry => congrArg (entry.1, ·) (Override.ofValue_copied hab (h entry hentry))

namespace Classified

open Arena (Copied Renumbers)

/-! ## Faults and types -/

mutual

theorem uncovered_copied (hab : Renumbers φ a b) : (entry : Classified) → (node : NodeId) → (value : Option Child) →
    (∀ v ∈ value, Copied φ a b v) →
      uncovered b (entry.renumber φ) (φ node) (value.map (·.map φ)) =
        (uncovered a entry node value).map (Finding.renumber φ)
  | .valid _, _, none, _ => by simp [renumber, uncovered]
  | .valid _, _, some _, _ => by simp [renumber, uncovered]
  | .invalid _, _, none, _ => by simp [renumber, uncovered, Finding.renumber]
  | .invalid _, _, some _, _ => by simp [renumber, uncovered]
  | .nested properties arrays, node, none, _ => by
      rw [renumber, Option.map_none, uncovered, uncovered]
      exact uncoveredAll_copied hab properties [] nofun
  | .nested properties arrays, node, some v, h => by
      obtain ⟨heq, hcopied⟩ := hab.unparenthesized (h v rfl)
      rw [renumber, Option.map_some, uncovered, uncovered, heq, hcopied.isObjectLiteral, hcopied.overrideEntries.1]
      split
      · exact uncoveredAll_copied hab properties _ hcopied.overrideEntries.2
      · rfl

theorem uncoveredAll_copied (hab : Renumbers φ a b) :
    (properties : List (String × DeclaredProperty Classified)) → (overrides : Entries Child) →
      (∀ entry ∈ overrides, Copied φ a b entry.2) →
        uncoveredAll b (renumberAll φ properties) (overrides.map fun (key, v) => (key, v.map φ)) =
          (uncoveredAll a properties overrides).map (Finding.renumber φ)
  | [], _, _ => by rw [renumberAll, uncoveredAll, uncoveredAll, List.map_nil]
  | (key, p) :: rest, overrides, h => by
      have hproperty := uncovered_copied hab p.entry p.node (overrides.get? key) fun v hv =>
        h (key, v) (Entries.mem_of_get? hv)
      rw [renumberAll, uncoveredAll, uncoveredAll, List.map_append, Entries.get?_map, hproperty,
        uncoveredAll_copied hab rest overrides h]

end

mutual

theorem merge_renumber : (entry : Classified) → (o : Option Override) → merge (entry.renumber φ) o = merge entry o
  | .valid _, o => rfl
  | .invalid _, o => rfl
  | .nested properties arrays, none => by
      rw [renumber, merge, merge, mergeAll_renumber properties []]
  | .nested properties arrays, some o => by
      cases o with
      | object entries => rw [renumber, merge, merge, mergeAll_renumber properties entries]
      | _ => rfl

theorem mergeAll_renumber : (properties : List (String × DeclaredProperty Classified)) →
    (overrides : Entries Override) → mergeAll (renumberAll φ properties) overrides = mergeAll properties overrides
  | [], _ => rfl
  | (key, p) :: rest, overrides => by
      rw [renumberAll, mergeAll, mergeAll, mergeAll_renumber rest overrides]
      dsimp only
      rw [merge_renumber p.entry]

end

end Classified

/-- What is checked is the chosen component. -/
theorem component_checkContract {scope : Scope} {names : FieldNames} (fileName : String) {root : Child}
    {component : Component} (h : chosenComponent a scope names root = some component) :
    (checkContract a scope names fileName root).component = some component := by
  rw [checkContract, h]
  dsimp only
  split <;> rfl

/-- A component whose fields stand in another table is checked there with the same result. -/
theorem checkContract_renumber (hab : Arena.Renumbers φ a b) {scope : Scope}
    (hscope : ∀ s ∈ scope.symbols, Arena.AgreesOn φ a b s) {x : Export} (hexport : scope.exports = [x])
    {names : FieldNames} (fileName : String) {root root' : Child} {component : Component}
    (hcomponent : chosenComponent a scope names root = some component)
    (hcomponent' : chosenComponent b (scope.renumber φ) names root' = some (component.renumber φ))
    (hpropTypes : Arena.Copied φ a b component.propTypes) (hoverrides : Arena.Copied φ a b component.overrides) :
    checkContract b (scope.renumber φ) names fileName root' =
      (checkContract a scope names fileName root).renumber φ := by
  have hexport' : (scope.renumber φ).exports = [x.renumber φ] := by
    rw [Scope.renumber, hexport, List.map_singleton]
  obtain ⟨heq, hentries⟩ := hab.componentOverrides hoverrides
  rw [checkContract, checkContract, hcomponent, hcomponent', hexport, hexport']
  dsimp only [exportFindings, Component.renumber, List.length_singleton]
  rw [heq]
  rcases hresult : a.componentOverrides component.overrides with - | ⟨node, value⟩ | ⟨object, entries⟩
  · rfl
  · rfl
  · obtain ⟨hobject, hvalues⟩ := hentries object entries hresult
    have htree := Classified.classify_copied hab (Scope.renumbers_resolver hab hscope) names.propTypes hpropTypes
    have hcollisions (name : Option String) :
        name.toList.flatMap (b.collisions (component.propTypes.map φ)) =
          (name.toList.flatMap (a.collisions component.propTypes)).map (Finding.renumber φ) := by
      rw [List.map_flatMap]
      exact List.flatMap_congr fun name _ => hab.collisions hpropTypes name
    have huncovered := Classified.uncoveredAll_copied hab
      (Classified.classify a (scope.resolver a) names.propTypes component.propTypes) entries hvalues
    have hmeant := Override.ofValue_entries_copied hab hvalues
    simp only [ComponentOverrides.renumber, CheckResult.renumber, htree, hcollisions, huncovered,
      hab.overrideFindings hobject, hmeant, Classified.mergeAll_renumber, ← List.map_append, List.nil_append,
      List.isEmpty_map, Option.map_some, Component.renumber]

end PropContract
