import PropContract.Contract.Check
import PropContract.Proofs.Contract.DeclaredType
import PropContract.Proofs.Entries

/-!
# Reading validators

The validators of a declared type are read without faults, and merging gives the type again.
-/

namespace PropContract

variable {a : Arena} {id : NodeId}

/-! ## Nodes of written expressions -/

namespace Written

theorem Holds.unparenthesized {e : Written} (h : e.Holds a id) :
    a.unparenthesized (some id) = some id := by
  cases e with
  | name text => exact Arena.unparenthesized_of_form? h fun _ => Form.noConfusion
  | strings values =>
      obtain ⟨ids, hform, -⟩ := h
      exact Arena.unparenthesized_of_form? hform fun _ => Form.noConfusion
  | object properties =>
      obtain ⟨ids, hform, -⟩ := h
      exact Arena.unparenthesized_of_form? hform fun _ => Form.noConfusion
  | member target text =>
      obtain ⟨t, n, hform, -⟩ := h
      exact Arena.unparenthesized_of_form? hform fun _ => Form.noConfusion
  | invoke target method argument =>
      obtain ⟨c, x, hform, -⟩ := h
      exact Arena.unparenthesized_of_form? hform fun _ => Form.noConfusion

theorem Holds.identifierText {text : String} (h : (Written.name text).Holds a id) :
    a.identifierText (some id) = some text := by
  rw [Arena.identifierText, show a.form? (some id) = _ from h]

/-- A member of a name is a chain of two names. -/
theorem accessChain_of_member {t n : NodeId} {owner text : String}
    (hform : a.form? (some id) = some (.propertyAccess (some t) (some n) false))
    (ht : (Written.name owner).Holds a t) (hn : (Written.name text).Holds a n) :
    a.accessChain (some id) = some [owner, text] := by
  have hne : id ≠ t := by
    rintro rfl
    cases hform.symm.trans ht
  have hid := Arena.lt_size_of_form? hform
  have htarget := Arena.lt_size_of_form? ht
  have htwo : 2 ≤ a.size := by
    obtain hlt | hlt := Nat.lt_or_gt_of_ne hne
    · exact Nat.lt_of_le_of_lt (Nat.zero_lt_of_lt hlt) htarget
    · exact Nat.lt_of_le_of_lt (Nat.zero_lt_of_lt hlt) hid
  obtain ⟨m, hm⟩ := Nat.exists_eq_add_of_le' htwo
  have hform' : a.form? (some t) = some (.identifier owner) := ht
  simp [Arena.accessChain, hm, Arena.accessNames, hform, hform', hn.identifierText]

/-- The properties of an object have their keys for names. -/
theorem HoldsAll.exists_key {properties : List (String × Written)} {ids : List NodeId} {i : NodeId}
    (h : HoldsAll a properties ids) (hi : i ∈ ids) :
    ∃ key ∈ Entries.keys properties, a.propertyNameText (a.memberName (some i)) = some key := by
  induction properties generalizing ids with
  | nil =>
      obtain rfl := h
      cases hi
  | cons p properties ih =>
      obtain ⟨j, n, v, rest, rfl, hform, hkey, -, hrest⟩ := h
      rcases List.mem_cons.mp hi with rfl | hi
      · refine ⟨p.1, List.mem_cons_self, ?_⟩
        simp only [Arena.memberName, hform, Arena.propertyNameText, hkey]
      · obtain ⟨key, hmem, hname⟩ := ih hrest hi
        exact ⟨key, List.mem_cons_of_mem _ hmem, hname⟩

end Written

/-! ## Required marks -/

namespace DeclaredType

theorem ne_requiredWord : ∀ name ∈ primitiveNames, name ≠ requiredWord := by
  decide

/-- A validator has no required mark of its own. -/
theorem stripRequiredIn_written {t : DeclaredType} (hv : t.IsValid) (h : t.written.Holds a id)
    (n : Nat) (required : Bool) :
    a.stripRequiredIn n (some id) required = (some id, required) := by
  cases n with
  | zero => rw [Arena.stripRequiredIn, h.unparenthesized]
  | succ n =>
      rw [Arena.stripRequiredIn, h.unparenthesized]
      cases t with
      | primitive name =>
          obtain ⟨t, i, hform, -, hi⟩ := h
          have hname : a.identifierText (some i) = some name := Written.Holds.identifierText hi
          simp [hform, hname, ne_requiredWord name hv]
      | _ =>
          obtain ⟨c, x, hform, -⟩ := h
          simp [hform]

/-- The validator of a property without its required mark. -/
theorem stripRequired_property {t : DeclaredType} {required : Bool} (hv : t.IsValid)
    (h : (if required then Written.member t.written requiredWord else t.written).Holds a id) :
    ∃ i, t.written.Holds a i ∧ a.stripRequired (some id) = (some i, required) := by
  cases required with
  | false => exact ⟨id, h, stripRequiredIn_written hv h _ _⟩
  | true =>
      have hself := Written.Holds.unparenthesized h
      obtain ⟨i, n, hform, hi, hn⟩ := h
      have hname : a.identifierText (some n) = some requiredWord := Written.Holds.identifierText hn
      refine ⟨i, hi, ?_⟩
      rw [Arena.stripRequired, Arena.stripRequiredIn, hself]
      simp only [hform, hname, if_true]
      exact stripRequiredIn_written hv hi _ _

end DeclaredType

/-! ## Expanded shapes -/

namespace Expansion

/-- What is known after `n` more shapes. -/
def after (s : Expansion) (n : Nat) : Expansion :=
  { s with expanded := s.expanded + n }

theorem expanded_after (s : Expansion) (n : Nat) : (s.after n).expanded = s.expanded + n := rfl

theorem after_after (s : Expansion) (m n : Nat) : (s.after m).after n = s.after (m + n) :=
  congrArg (Expansion.mk s.active s.cyclic · s.limited) (Nat.add_assoc s.expanded m n)

end Expansion

namespace Classified

/-! ## Entries without faults -/

/-- Whether a validator says a type, without a fault. -/
structure Declares (c : Classified) (type : PropertyType) : Prop where
  uncovered (a : Arena) (node : NodeId) : uncovered a c node none = []
  merge : merge c none = some type

/-- Whether properties are without faults and have the types and marks of a model. -/
structure DeclaresAll (entries : List (String × DeclaredProperty Classified))
    (properties : List (String × Property)) : Prop where
  uncoveredAll (a : Arena) : uncoveredAll a entries [] = []
  mergeAll : mergeAll entries [] = properties
  keys : Entries.keys entries = Entries.keys properties

variable {c : Classified} {type : PropertyType}

theorem Declares.valid (type : PropertyType) : Declares (.valid type) type :=
  ⟨fun _ _ => rfl, rfl⟩

theorem Declares.inArray (h : Declares c type) : Declares c.inArray (.arrayOf type) := by
  cases c with
  | valid t =>
      obtain rfl := Option.some.inj h.merge
      exact .valid _
  | invalid v => cases h.merge
  | nested properties arrays =>
      obtain rfl := Option.some.inj h.merge
      exact ⟨h.uncovered, rfl⟩

theorem Declares.nested {entries : List (String × DeclaredProperty Classified)}
    {properties : List (String × Property)} (h : DeclaresAll entries properties) :
    Declares (.nested entries 0) (.shape properties) :=
  ⟨fun a _ => h.uncoveredAll a, congrArg (fun kept => some (PropertyType.shape kept)) h.mergeAll⟩

theorem DeclaresAll.nil : DeclaresAll [] [] :=
  ⟨fun _ => rfl, rfl, rfl⟩

theorem DeclaresAll.cons {key : String} {p : DeclaredProperty Classified}
    {entries : List (String × DeclaredProperty Classified)} {properties : List (String × Property)}
    (h : Declares p.entry type) (hrest : DeclaresAll entries properties) :
    DeclaresAll ((key, p) :: entries) ((key, ⟨type, p.required⟩) :: properties) where
  uncoveredAll a := by
    rw [Classified.uncoveredAll, Entries.get?_nil, h.uncovered, hrest.uncoveredAll, List.append_nil]
  mergeAll := by
    rw [Classified.mergeAll, Entries.get?_nil, h.merge, hrest.mergeAll]
  keys := congrArg (key :: ·) hrest.keys

/-! ## Validators -/

section

variable {r : Resolver} {field : String} {reader : ShapeReader}
  {value : Child → Classifier (Classified × Bool)} {s : Expansion}

theorem validatorName?_written (hr : r.isValidatorNamespace "PropTypes" = true) {t n : NodeId}
    {name : String} (hform : a.form? (some id) = some (.propertyAccess (some t) (some n) false))
    (ht : (Written.name "PropTypes").Holds a t) (hn : (Written.name name).Holds a n) :
    validatorName? a r (some id) = some name := by
  simp only [validatorName?, Written.accessChain_of_member hform ht hn, hr, if_true]

theorem ofLeaf_invoke (hr : r.isValidatorNamespace "PropTypes" = true) {method : String}
    {argument : Written} (h : (Written.invoke (.name "PropTypes") method argument).Holds a id) :
    ∃ c x, x < id ∧ argument.Holds a x ∧ validatorName? a r c = some method ∧
      ∀ field reader value,
        ofLeaf a r field reader value (some id) = ofCall a r field reader value c [some x] := by
  obtain ⟨c, x, hform, ⟨t, n, hcallee, ht, hn⟩, hlt, hx⟩ := h
  refine ⟨some c, x, hlt, hx, validatorName?_written hr hcallee ht hn, fun field reader value => ?_⟩
  rw [ofLeaf, hform]

theorem ofLeaf_primitive (hr : r.isValidatorNamespace "PropTypes" = true) {name : String}
    (hname : name ∈ primitiveNames) (h : (DeclaredType.primitive name).written.Holds a id) :
    ofLeaf a r field reader value (some id) = pure (.valid (.primitive name)) := by
  obtain ⟨t, n, hform, ht, hn⟩ := h
  have hvalidator := validatorName?_written hr hform ht hn
  have hcontains : primitiveNames.contains name = true := List.contains_iff_mem.mpr hname
  simp only [ofLeaf, hform, ofMember, hvalidator, hcontains, if_true]

theorem arrayValues_strings {values : List String} (h : (Written.strings values).Holds a id) :
    a.arrayValues id = values.map .string := by
  obtain ⟨ids, hform, hvalues⟩ := h
  rw [Arena.arrayValues, Arena.literalElements, hform]
  clear hform
  induction hvalues with
  | nil => rfl
  | @cons v i values ids hi _ ih =>
      have hself : a.unparenthesized (some i) = some i :=
        Arena.unparenthesized_of_form? hi fun _ => Form.noConfusion
      have hvalue : a.literalValue (some i) = some (.string v) := by
        rw [Arena.literalValue, Arena.literalValueIn, hself, hi]
      rw [List.map_cons, List.filterMap_cons, hvalue, ih, List.map_cons]

theorem ofOneOf_strings {values : List String} (h : (Written.strings values).Holds a id) :
    ofOneOf a r (some id) = .valid (.enum (values.map .string)) := by
  have hself := h.unparenthesized
  have hvalues := arrayValues_strings h
  obtain ⟨ids, hform, -⟩ := h
  simp only [ofOneOf, hself, hform, hvalues]

theorem ofShape_object {properties : List (String × Written)}
    (h : (Written.object properties).Holds a id) :
    ofShape a r field reader (some id) = reader.inPlace id := by
  have hself := h.unparenthesized
  obtain ⟨ids, hform, -⟩ := h
  simp only [ofShape, hself, hform]

theorem ofShape_member {component : String}
    (h : (Written.member (.name component) field).Holds a id) :
    ofShape a r field reader (some id) = pure (.valid (.shapeOf component)) := by
  have hself := h.unparenthesized
  obtain ⟨t, n, hform, ht, hn⟩ := h
  simp only [ofShape, hself, hform, Written.accessChain_of_member hform ht hn, if_true]

theorem run_ofCall_oneOf {c : Child} {values : List String}
    (hc : validatorName? a r c = some "oneOf") (h : (Written.strings values).Holds a id) :
    (ofCall a r field reader value c [some id]).run s =
      (.valid (.enum (values.map .string)), s) := by
  simp only [ofCall, hc, firstArgument, List.head?_cons, Option.join_some, ofOneOf_strings h]
  rfl

theorem run_ofCall_arrayOf {c : Child} (hc : validatorName? a r c = some "arrayOf") :
    (ofCall a r field reader value c [some id]).run s =
      (((value (some id)).run s).1.1.inArray, ((value (some id)).run s).2) := by
  simp only [ofCall, hc, firstArgument, List.head?_cons, Option.join_some]
  rfl

theorem run_ofCall_shape {c : Child} (hc : validatorName? a r c = some "shape") :
    (ofCall a r field reader value c [some id]).run s =
      (ofShape a r field reader (some id)).run s := by
  simp only [ofCall, hc, firstArgument, List.head?_cons, Option.join_some]

/-- An object without a repeated name has its elements for entries. -/
theorem run_ofObject {ids : List NodeId} {entries : List (String × DeclaredProperty Classified)}
    {s' : Expansion} (hform : a.form? (some id) = some (.objectLiteral ids))
    (hentries : (ofElements a r field reader ids).run s = (entries, s'))
    (hkeys : (Entries.keys entries).Nodup) :
    (ofObject a r field reader id).run s = (entries, s') := by
  simp -implicitDefEqProofs only [ofObject, hform, Stateful.run_bind, Stateful.run_pure, hentries,
    Entries.ofList_of_nodup hkeys]

/-- A shape is expanded where the limits allow it. -/
theorem run_ofShapeObject {n : Nat} {entries : ClassifiedTree} {s' : Expansion}
    (hs : s.expanded < maxShapeExpansions)
    (hobject : (ofObject a r field (watching (ofShapeObject a r field n)) id).run (s.after 1) =
      (entries, s')) :
    (ofShapeObject a r field (n + 1) id).run s = (.nested entries 0, s') := by
  simp -implicitDefEqProofs only [ofShapeObject, Stateful.run_bind, Stateful.run_get,
    Nat.not_le_of_lt hs, if_false, Stateful.run_modify, Stateful.run_pure,
    show ({ s with expanded := s.expanded + 1 } : Expansion) = s.after 1 from rfl, hobject]

theorem run_ofElement {n v : NodeId} {key : String} {required : Bool} {s' : Expansion}
    {c : Classified} (hform : a.form? (some id) = some (.propertyAssignment n (some v)))
    (hkey : a.form? (some n) = some (.literal .string key))
    (hvalue : (ofValue a r field reader (some v)).run s = ((c, required), s')) :
    (ofElement a r field reader id).run s =
      (some (key, { node := id, required, entry := c }), s') := by
  have hname : a.propertyNameText (a.memberName (some id)) = some key := by
    simp only [Arena.memberName, hform, Arena.propertyNameText, hkey]
  simp -implicitDefEqProofs only [ofElement, hname, hform, Stateful.run_bind, hvalue,
    Stateful.run_pure]

end

/-! ## Types -/

section

variable {r : Resolver}

mutual

/-- The validator of a type is read as the type, and its shapes are counted. -/
theorem ofLeaf_written (hr : r.isValidatorNamespace "PropTypes" = true) :
    ∀ {t : DeclaredType} {id : NodeId} {m n : Nat} {s : Expansion},
    t.IsValid → t.written.Holds a id → t.written.height ≤ 2 * m → id ≤ n →
    s.expanded + t.shapes ≤ maxShapeExpansions →
    ∃ c, (ofLeaf a r "propTypes" (watching (ofShapeObject a r "propTypes" m))
        (ofValueIn a r "propTypes" (watching (ofShapeObject a r "propTypes" m)) n)
        (some id)).run s = (c, s.after t.shapes) ∧ Declares c t.type
  | .primitive name, id, m, n, s, hv, h, _, _, _ =>
      ⟨.valid (.primitive name), by rw [ofLeaf_primitive hr hv h]; rfl, .valid _⟩
  | .enum values, id, m, n, s, _, h, _, _, _ => by
      obtain ⟨c, x, -, hx, hc, hleaf⟩ := ofLeaf_invoke hr h
      exact ⟨_, by rw [hleaf, run_ofCall_oneOf hc hx]; rfl, .valid _⟩
  | .arrayOf element, id, m, n, s, hv, h, hm, hn, hs => by
      obtain ⟨c, x, hlt, hx, hc, hleaf⟩ := ofLeaf_invoke hr h
      obtain ⟨n, rfl⟩ := Nat.exists_eq_succ_of_ne_zero (Nat.ne_of_gt (Nat.zero_lt_of_lt
        (Nat.lt_of_lt_of_le hlt hn)))
      have hheight : element.written.height ≤ 2 * m := by
        rw [DeclaredType.written, Written.height, Written.height] at hm
        omega
      obtain ⟨e, hrun, he⟩ := ofLeaf_written hr (t := element) (n := n) hv hx hheight
        (Nat.le_of_lt_succ (Nat.lt_of_lt_of_le hlt hn)) hs
      have hstrip : a.stripRequired (some x) = (some x, false) :=
        DeclaredType.stripRequiredIn_written (t := element) hv hx _ _
      refine ⟨e.inArray, ?_, he.inArray⟩
      rw [hleaf, run_ofCall_arrayOf hc]
      simp -implicitDefEqProofs only [ofValueIn, hstrip, Stateful.run_bind, Stateful.run_pure, hrun]
      rfl
  | .shape properties, id, m, n, s, ⟨hnodup, hv⟩, h, hm, _, hs => by
      obtain ⟨c, x, -, hx, hc, hleaf⟩ := ofLeaf_invoke hr h
      have ⟨ids, hform, hids⟩ := hx
      rw [DeclaredType.written, Written.height, Written.height, Written.height] at hm
      obtain ⟨m, rfl⟩ := Nat.exists_eq_succ_of_ne_zero (show m ≠ 0 by omega)
      rw [DeclaredType.shapes] at hs ⊢
      obtain ⟨entries, hrun, hentries⟩ := ofElements_written hr (m := m)
        (s := s.after 1) hv hids (by omega) (by
          rw [Expansion.expanded_after]
          omega)
      have hkeys : (Entries.keys entries).Nodup := by
        rw [hentries.keys, DeclaredType.keys_typeAll]
        exact hnodup
      refine ⟨.nested entries 0, ?_, .nested hentries⟩
      rw [hleaf, run_ofCall_shape hc, ofShape_object hx]
      refine (run_ofShapeObject (by omega) (run_ofObject hform hrun hkeys)).trans ?_
      rw [Expansion.after_after, Nat.add_comm]
  | .shapeOf component, id, m, n, s, _, h, _, _, _ => by
      obtain ⟨c, x, -, hx, hc, hleaf⟩ := ofLeaf_invoke hr h
      exact ⟨_, by rw [hleaf, run_ofCall_shape hc, ofShape_member hx]; rfl, .valid _⟩

theorem ofElements_written (hr : r.isValidatorNamespace "PropTypes" = true) :
    ∀ {properties : DeclaredProperties} {ids : List NodeId} {m : Nat} {s : Expansion},
    DeclaredType.AreValid properties →
    Written.HoldsAll a (DeclaredType.writtenAll properties) ids →
    Written.propertiesHeight (DeclaredType.writtenAll properties) ≤ 2 * m + 1 →
    s.expanded + DeclaredType.shapesAll properties ≤ maxShapeExpansions →
    ∃ entries, (ofElements a r "propTypes" (watching (ofShapeObject a r "propTypes" m)) ids).run s =
        (entries, s.after (DeclaredType.shapesAll properties)) ∧
      DeclaresAll entries (DeclaredType.typeAll properties)
  | [], ids, m, s, _, h, _, _ => by
      obtain rfl := h
      exact ⟨[], rfl, .nil⟩
  | (key, ⟨t, required⟩) :: properties, ids, m, s, ⟨hv, hvs⟩, h, hm, hs => by
      obtain ⟨i, n, v, rest, rfl, hform, hkey, hvalue, hrest⟩ := h
      rw [DeclaredType.shapesAll] at hs
      rw [DeclaredType.writtenAll, Written.propertiesHeight] at hm
      obtain ⟨e, he, hstrip⟩ := DeclaredType.stripRequired_property hv hvalue
      have hheight : t.written.height ≤ 2 * m := by
        have heq : (if required then Written.member t.written "isRequired" else t.written).height =
            t.written.height := by
          cases required <;> rfl
        omega
      obtain ⟨c, hrun, hc⟩ := ofLeaf_written hr (s := s) hv he hheight
        (Nat.le_of_lt (Arena.lt_size_of_form? he.exists_form.choose_spec)) (by omega)
      obtain ⟨entries, hrunRest, hentries⟩ := ofElements_written hr (m := m)
        (s := s.after t.shapes) hvs hrest (by omega) (by
          rw [Expansion.expanded_after]
          omega)
      have hread : (ofValue a r "propTypes" (watching (ofShapeObject a r "propTypes" m))
          (some v)).run s = ((c, required), s.after t.shapes) := by
        simp -implicitDefEqProofs only [ofValue, ofValueIn, hstrip, Stateful.run_bind,
          Stateful.run_pure, hrun]
      refine ⟨(key, { node := i, required, entry := c }) :: entries, ?_, .cons hc hentries⟩
      simp -implicitDefEqProofs only [ofElements, Stateful.run_bind, Stateful.run_pure,
        run_ofElement hform hkey hread, hrunRest, DeclaredType.shapesAll, Expansion.after_after]
      rfl

end

/-- The properties of an object are classified as they were declared. -/
theorem classify_written (hr : r.isValidatorNamespace "PropTypes" = true)
    {properties : DeclaredProperties} (hnodup : (Entries.keys properties).Nodup)
    (hv : DeclaredType.AreValid properties)
    (hheight : Written.propertiesHeight (DeclaredType.writtenAll properties) ≤ 2 * maxShapeDepth + 1)
    (hshapes : DeclaredType.shapesAll properties ≤ maxShapeExpansions)
    (h : (Written.object (DeclaredType.writtenAll properties)).Holds a id) :
    DeclaresAll (classify a r "propTypes" (some id)) (DeclaredType.typeAll properties) := by
  have hself := h.unparenthesized
  obtain ⟨ids, hform, hids⟩ := h
  obtain ⟨entries, hrun, hentries⟩ := ofElements_written hr (s := {}) hv hids hheight
    (le_of_eq_of_le (Nat.zero_add _) hshapes)
  have hkeys : (Entries.keys entries).Nodup := by
    rw [hentries.keys, DeclaredType.keys_typeAll]
    exact hnodup
  rw [classify, classification, hself]
  simp only [run_ofObject hform hrun hkeys]
  exact hentries

end

end Classified

end PropContract
