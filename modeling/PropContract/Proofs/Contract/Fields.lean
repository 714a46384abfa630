import PropContract.Contract.Component

/-!
# How a contract field is given

A static member of a class gives a field of the contract, and so does a statement that assigns it. Which members and
statements these are, and what they give, is said by their forms.
-/

namespace PropContract

namespace Arena

variable {a : Arena} {owner field : String} {id : NodeId} {target value : Child}

/-! ## Statements -/

/-- Whether an expression is `owner.field` or `owner['field']`. -/
inductive IsFieldOf (a : Arena) (owner field : String) (target : Child) : Prop
  | dotted {object property : Child} {optional : Bool}
      (h : a.form? target = some (.propertyAccess object property optional))
      (hobject : a.identifierText object = some owner) (hproperty : a.identifierText property = some field)
  | quoted {object argument : Child} {optional : Bool}
      (h : a.form? target = some (.elementAccess object argument optional))
      (hobject : a.identifierText object = some owner) (hargument : a.stringText argument = some field)

theorem pair_eq_some_iff {x y : Option String} {s t : String} :
    (do return (← x, ← y)) = some (s, t) ↔ x = some s ∧ y = some t := by
  cases x <;> cases y <;> simp

theorem fieldAccess?_eq_some_iff : a.fieldAccess? target = some (owner, field) ↔ a.IsFieldOf owner field target := by
  constructor
  · intro h
    rw [fieldAccess?] at h
    split at h
    · rename_i hform
      obtain ⟨hobject, hproperty⟩ := pair_eq_some_iff.mp h
      exact .dotted hform hobject hproperty
    · rename_i hform
      obtain ⟨hobject, hargument⟩ := pair_eq_some_iff.mp h
      exact .quoted hform hobject hargument
    · cases h
  · intro h
    cases h with
    | dotted hform hobject hproperty =>
        rw [fieldAccess?, hform]
        exact pair_eq_some_iff.mpr ⟨hobject, hproperty⟩
    | quoted hform hobject hargument =>
        rw [fieldAccess?, hform]
        exact pair_eq_some_iff.mpr ⟨hobject, hargument⟩

theorem IsFieldOf.not_binary (h : a.IsFieldOf owner field target) :
    ∃ form, a.form? target = some form ∧ ∀ left operator right, form ≠ .binary left operator right := by
  cases h with
  | dotted hform => exact ⟨_, hform, nofun⟩
  | quoted hform => exact ⟨_, hform, nofun⟩

/-- What a statement assigns is the right side of `=` to its left side. Any other expression is a target alone. -/
theorem assignment?_eq_some_iff : a.assignment? id = some (target, value) ↔
    ∃ e, a.form? (some id) = some (.expressionStatement e) ∧
      (a.form? e = some (.binary target (.assign .equals) value) ∨
        target = e ∧ value = none ∧
          ∃ form, a.form? e = some form ∧ ∀ left operator right, form ≠ .binary left operator right) := by
  constructor
  · intro h
    rw [assignment?] at h
    split at h
    · rename_i e hform
      refine ⟨e, hform, ?_⟩
      split at h
      · rename_i hassign
        obtain ⟨rfl, rfl⟩ := Prod.mk.inj (Option.some.inj h)
        exact .inl hassign
      · cases h
      · rename_i form _ hbinary hexpression
        obtain ⟨rfl, rfl⟩ := Prod.mk.inj (Option.some.inj h)
        exact .inr ⟨rfl, rfl, form, hexpression, hbinary⟩
      · cases h
    · cases h
  · rintro ⟨e, hform, hassign | ⟨rfl, rfl, form, hexpression, hbinary⟩⟩
    · rw [assignment?, hform]
      simp only [hassign]
    · rw [assignment?, hform]
      simp only [hexpression]
      cases form with
      | binary left operator right => exact absurd rfl (hbinary left operator right)
      | _ => rfl

/-- Whether a statement is `owner.field = value;`, or `owner.field;` where there is no value. -/
inductive GivesField (a : Arena) (owner field : String) : (value : Child) → (statement : NodeId) → Prop
  | assigned {e target value : Child} {statement : NodeId}
      (h : a.form? (some statement) = some (.expressionStatement e))
      (hassign : a.form? e = some (.binary target (.assign .equals) value))
      (htarget : a.IsFieldOf owner field target) : GivesField a owner field value statement
  | bare {e : Child} {statement : NodeId} (h : a.form? (some statement) = some (.expressionStatement e))
      (htarget : a.IsFieldOf owner field e) : GivesField a owner field none statement

theorem fieldStatement?_eq_some_iff :
    a.fieldStatement? id = some (owner, field, value) ↔ a.GivesField owner field value id := by
  constructor
  · intro h
    rw [fieldStatement?] at h
    simp only [Option.bind_eq_bind, Option.bind_eq_some_iff, Option.pure_def, Option.some.injEq, Prod.mk.injEq] at h
    obtain ⟨⟨target, value⟩, hassignment, ⟨_, _⟩, haccess, rfl, rfl, rfl⟩ := h
    have htarget := fieldAccess?_eq_some_iff.mp haccess
    obtain ⟨e, hform, hassign | ⟨rfl, rfl, -⟩⟩ := assignment?_eq_some_iff.mp hassignment
    · exact .assigned hform hassign htarget
    · exact .bare hform htarget
  · intro h
    obtain ⟨target, hassignment, htarget⟩ :
        ∃ target, a.assignment? id = some (target, value) ∧ a.IsFieldOf owner field target := by
      cases h with
      | assigned hform hassign htarget =>
          exact ⟨_, assignment?_eq_some_iff.mpr ⟨_, hform, .inl hassign⟩, htarget⟩
      | bare hform htarget =>
          exact ⟨_, assignment?_eq_some_iff.mpr ⟨_, hform, .inr ⟨rfl, rfl, htarget.not_binary⟩⟩, htarget⟩
    rw [fieldStatement?, hassignment, Option.bind_eq_bind, Option.bind_some]
    dsimp only
    rw [fieldAccess?_eq_some_iff.mpr htarget]
    rfl

/-! ## Members -/

/-- Whether a member of a class is `static field = value;`, or `static field;` where there is no value. The name may
be quoted, or a number. -/
def IsStaticField (a : Arena) (field : String) (value : Child) (member : NodeId) : Prop :=
  ∃ node name, a.get? member = some node ∧ node.form = .propertyDeclaration name value ∧
    node.modifiers.isStatic = true ∧ a.propertyNameText (some name) = some field

theorem staticField?_eq_some_iff : a.staticField? id = some (field, value) ↔ a.IsStaticField field value id := by
  constructor
  · intro h
    rw [staticField?] at h
    obtain ⟨node, hnode, h⟩ := Option.bind_eq_some_iff.mp h
    split at h
    · rename_i name v hform
      split at h
      · rename_i hstatic
        obtain ⟨text, hname, h⟩ := Option.bind_eq_some_iff.mp h
        obtain ⟨rfl, rfl⟩ := Prod.mk.inj (Option.some.inj h)
        exact ⟨node, name, hnode, hform, hstatic, hname⟩
      · cases h
    · cases h
  · rintro ⟨node, name, hnode, hform, hstatic, hname⟩
    rw [staticField?, hnode, Option.bind_eq_bind, Option.bind_some, hform]
    simp only [hstatic, if_true, hname]
    rfl

end Arena

end PropContract
