import PropContract.Contract.FileCheck
import PropContract.Proofs.Contract.Fields
import PropContract.Proofs.Contract.Reading
import PropContract.Proofs.Parse.Module

/-!
# The way from a text to a model

A module that declares the properties of a component and exports the component is checked without
findings, and its model has the declared properties.
-/

namespace PropContract

open Text

/-! ## Statements of a component -/

namespace Parser

variable {a : Arena} {i j : NodeId} {owner field : String} {value : Written}

theorem IsAssignmentStatement.fieldStatement? (h : IsAssignmentStatement owner field value a i) :
    ∃ v, value.Holds a v ∧ a.fieldStatement? i = some (owner, field, some v) := by
  obtain ⟨e, hform, l, v, hassign, ⟨t, n, htarget, ht, hn⟩, hv⟩ := h
  have howner : a.identifierText (some t) = some owner := Written.Holds.identifierText ht
  have hfield : a.identifierText (some n) = some field := Written.Holds.identifierText hn
  exact ⟨v, hv, Arena.fieldStatement?_eq_some_iff.mpr (.assigned hform hassign (.dotted htarget howner hfield))⟩

theorem IsExport.fieldStatement? (h : IsExport owner a j) : a.fieldStatement? j = none := by
  obtain ⟨e, hform, -⟩ := h
  simp only [Arena.fieldStatement?, Arena.assignment?, hform]
  rfl

/-- A module of the two statements declares nothing and exports the name. -/
theorem scope_eq (hi : IsAssignmentStatement owner field value a i) (hj : IsExport owner a j) :
    Scope.add {} a [i, j] =
      { exports := [{ kind := .defaultExpression, node := j, localName := some owner }] } := by
  obtain ⟨e, hformI, -⟩ := hi
  obtain ⟨x, hformJ, hx⟩ := hj
  have hself : a.unparenthesized (some x) = some x :=
    Arena.unparenthesized_of_form? hx fun _ => Form.noConfusion
  have hname : a.identifierText (some x) = some owner := Written.Holds.identifierText hx
  have hexportsI : a.exports i = [] := by
    obtain ⟨node, hget, hform⟩ := Arena.exists_get?_of_form? hformI
    simp only [Arena.exports, hget, hform]
  have hexportsJ : a.exports j =
      [{ kind := .defaultExpression, node := j, localName := some owner }] := by
    obtain ⟨node, hget, hform⟩ := Arena.exists_get?_of_form? hformJ
    simp only [Arena.exports, hget, hform, hself, hname]
    rfl
  simp [Scope.add, hexportsI, hexportsJ, Arena.declarations, Arena.validatorNames, hformI, hformJ,
    Scope.markExported]

theorem collect_eq (hi : IsAssignmentStatement owner "propTypes" value a i) (hj : IsExport owner a j)
    {scope : Scope} (hscope : scope.symbols = []) :
    ∃ v, value.Holds a v ∧ Component.collect a [i, j] scope {} (some owner) none =
      { name := some owner, propTypes := some v } := by
  obtain ⟨v, hv, hstatement⟩ := hi.fieldStatement?
  have hexport := hj.fieldStatement?
  have hclass : a.classOf scope owner = none := by
    simp [Arena.classOf, Scope.lookup, hscope]
  have hassigned : Component.assignedFields a [i, j] owner = [("propTypes", some v)] := by
    simp [Component.assignedFields, hstatement, hexport]
  refine ⟨v, hv, ?_⟩
  simp [Component.collect, Arena.isClass, hclass, Arena.staticFields, Arena.classMembers, hassigned,
    Component.setField]

end Parser

/-! ## Modules of one component -/

structure DeclaredContract where
  name : String
  properties : DeclaredProperties
deriving Repr

namespace DeclaredContract

def written (c : DeclaredContract) : Written :=
  .object (DeclaredType.writtenAll c.properties)

def model (c : DeclaredContract) : ComponentModel where
  name := c.name
  properties := DeclaredType.typeAll c.properties

/-- The text of a module that declares the properties and exports the component. -/
def text (q : Quote) (c : DeclaredContract) : String :=
  c.name ++ ".propTypes = " ++ c.written.text q ++ "; export default " ++ c.name ++ ";"

example : text .single ⟨"A", [("it's", ⟨.arrayOf (.primitive "bool"), true⟩)]⟩ =
    "A.propTypes = \x7b'it\\'s': PropTypes.arrayOf(PropTypes.bool).isRequired\x7d; export default A;" := by
  decide +kernel

/-- Whether a module can declare the contract. An expression takes two levels of the parser for every
level that it is high, and the assignment takes three. -/
structure IsValid (c : DeclaredContract) : Prop where
  name : DeclaredType.IsName c.name
  properties : DeclaredType.AreValid c.properties
  nodup : (Entries.keys c.properties).Nodup
  apart : ∀ key ∈ Entries.keys c.properties, equivalentNames key c.name = false
  shapes : DeclaredType.shapesAll c.properties ≤ maxShapeExpansions
  height : 2 * c.written.height + 3 ≤ maxExpressionDepth

/-- What is read from the module: the pieces of each statement, and what its node stands for. -/
def rows (c : DeclaredContract) : List (List Piece × (Arena → NodeId → Prop)) :=
  [(Parser.assignmentPieces c.name "propTypes" c.written ++ [.mark .semicolon],
      Parser.IsAssignmentStatement c.name "propTypes" c.written),
    (Parser.exportPieces c.name, Parser.IsExport c.name)]

variable {c : DeclaredContract} {q : Quote}

theorem lexes_text (h : c.IsValid) : Lexes q (c.text q).toList (c.rows.flatMap Prod.fst) := by
  have hname := Spells.word (q := q) h.name.1
  have hexport : Spells q "export" [.word "export"] := .word (by decide +kernel)
  have hdefault : Spells q "default" [.word "default"] := .word (by decide +kernel)
  have hvalue := Written.spells_text (q := q) (e := c.written)
    (DeclaredType.spelled_writtenAll h.properties)
  have hassignment := (hname.member (show IsIdentifier "propTypes" by decide +kernel)).assigned hvalue
  have hlexes := (hassignment.joined (c := ';') (m := .semicolon) ⟨by decide, by decide, rfl, by decide⟩
    ((hexport.spaced hdefault).spaced hname)).lexes_semicolon
  have htext : c.text q = c.name ++ "." ++ "propTypes" ++ " = " ++ c.written.text q ++
      String.ofList [';', ' '] ++ ("export" ++ " " ++ "default" ++ " " ++ c.name) ++ ";" := by
    rw [← String.toList_inj]
    simp [text, String.toList_append]
  rw [htext]
  simpa [rows, Parser.assignmentPieces, Parser.exportPieces, Written.pieces] using hlexes

theorem statement_of_mem_rows (h : c.IsValid) : ∀ row ∈ c.rows, Parser.Statement q row := by
  intro row hrow
  obtain rfl | hrow := List.mem_cons.mp hrow
  · refine ⟨⟨.word c.name, _, rfl, ?_⟩, ?_, fun _ _ _ hg => .mono hg⟩
    · rw [Piece.kind, h.name.2]
      exact TokenKind.noConfusion
    · exact Parser.assignmentStatement_reads h.name.2
        (DeclaredType.namesFree_writtenAll h.properties) h.height
  · obtain rfl := List.mem_singleton.mp hrow
    refine ⟨⟨.word "export", _, rfl, ?_⟩, ?_, fun _ _ _ hg => .mono hg⟩
    · decide +kernel
    · exact Parser.exportStatement_reads h.name.2

theorem head?_text_ne (h : c.IsValid) : (c.text q).toList.head? ≠ some '\uFEFF' := by
  obtain ⟨d, ds, hd, -⟩ := h.name.1.1
  have hascii := (h.name.1.2 d (by simp [hd])).1
  have hfirst : (c.text q).toList.head? = some d := by
    simp [text, String.toList_append, hd]
  rw [hfirst]
  rintro ⟨⟩
  exact absurd hascii (by decide)

/-! ## Checking the module -/

theorem collisions_eq_nil {a : Arena} {id : NodeId} (h : c.IsValid) (hid : c.written.Holds a id) :
    a.collisions (some id) c.name = [] := by
  have hself := hid.unparenthesized
  obtain ⟨ids, hform, hids⟩ := hid
  simp only [Arena.collisions, hself, hform, List.filterMap_eq_nil_iff]
  intro i hi
  obtain ⟨key, hkey, hname⟩ := hids.exists_key hi
  rw [DeclaredType.keys_writtenAll] at hkey
  simp [hname, h.apart key hkey]

theorem checkContract_eq {a : Arena} {i j root : NodeId} (h : c.IsValid)
    (hi : Parser.IsAssignmentStatement c.name "propTypes" c.written a i)
    (hj : Parser.IsExport c.name a j) (hroot : a.statements (some root) = [i, j]) (path : String) :
    ∃ component, checkContract a (.add {} a [i, j]) {} path (some root) =
      { component := some component, model := some c.model } := by
  have hscope := Parser.scope_eq hi hj
  obtain ⟨v, hv, hcollect⟩ := Parser.collect_eq hi hj
    (show (Scope.add {} a [i, j]).symbols = [] by rw [hscope])
  have hcomponent : chosenComponent a (.add {} a [i, j]) {} (some root) =
      some { name := some c.name, propTypes := some v } := by
    rw [← hcollect, chosenComponent, hroot, hscope]
  have hheight := h.height
  rw [written, Written.height, maxExpressionDepth] at hheight
  have hlevels : Written.propertiesHeight (DeclaredType.writtenAll c.properties) ≤
      2 * maxShapeDepth + 1 := by
    rw [maxShapeDepth]
    omega
  have htypes := Classified.classify_written (r := Scope.resolver (.add {} a [i, j]) a)
    (by rw [hscope]; rfl) h.nodup h.properties hlevels h.shapes hv
  have hoverrides : a.componentOverrides none = .properties none [] := by
    rw [Arena.componentOverrides, Arena.unparenthesized_none]
  have hfindings : a.overrideFindings none = [] := rfl
  have hexports : (Scope.add {} a [i, j]).exports.length = 1 := by
    rw [hscope]
    rfl
  have hexport : exportFindings (some root) (Scope.add {} a [i, j]).exports = [] := by
    rw [hscope]
    rfl
  refine ⟨{ name := some c.name, propTypes := some v }, ?_⟩
  simp only [checkContract, hcomponent, hoverrides, hexports, if_true, hexport, Option.toList_some,
    List.flatMap_cons, List.flatMap_nil, collisions_eq_nil h hv, htypes.uncoveredAll, hfindings,
    List.append_nil, List.map_nil, htypes.mergeAll]
  rfl

/-- A module that declares a contract is checked without findings, and gives its model. -/
theorem ofSource_text (h : c.IsValid) (q : Quote) (path : String) :
    FileResult.ofSource {} path (c.text q) =
      { path, source := c.text q, model := some c.model } := by
  obtain ⟨herrors, hrows⟩ := Module.parse_reads path (statement_of_mem_rows h) (head?_text_ne h)
    (lexes_text (q := q) h)
  generalize hm : Module.parse path (c.text q) = m at herrors hrows
  obtain ⟨i, j, hstatements, hi, hj⟩ : ∃ i j, m.statements = [i, j] ∧
      Parser.IsAssignmentStatement c.name "propTypes" c.written m.arena i ∧
      Parser.IsExport c.name m.arena j := by
    generalize m.statements = statements at hrows
    rcases hrows with _ | ⟨hi, _ | ⟨hj, _ | _⟩⟩
    exact ⟨_, _, rfl, hi, hj⟩
  obtain ⟨component, hcheck⟩ := checkContract_eq h hi hj hstatements path
  have hscope : Scope.ofModule m = .add {} m.arena [i, j] := by
    rw [Scope.ofModule, hstatements]
  simp only [FileResult.ofSource, hm, herrors, hscope, hcheck, List.isEmpty_nil, if_true,
    List.map_nil]

/-- A contract with a shape in an array, an enumeration, a key that is escaped and an empty key. -/
def card : DeclaredContract where
  name := "Card"
  properties :=
    [("title", ⟨.primitive "string", true⟩),
      ("it's \\ a\nrow", ⟨.arrayOf (.shape
        [("kind", ⟨.enum ["a'b", "\r"], false⟩), ("", ⟨.shapeOf "Base", true⟩)]), false⟩)]

theorem ofSource_text_card :
    card.IsValid ∧ FileResult.ofSource {} "Card.jsx" (card.text .single) =
      { path := "Card.jsx", source := card.text .single, model := some card.model } := by
  have hvalid : card.IsValid :=
    ⟨by decide +kernel, by decide +kernel, by decide, by decide +kernel, by decide +kernel,
      by decide +kernel⟩
  exact ⟨hvalid, ofSource_text hvalid .single "Card.jsx"⟩

end DeclaredContract

end PropContract
