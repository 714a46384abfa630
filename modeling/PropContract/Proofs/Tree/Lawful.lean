import PropContract.Proofs.Text.Numeral
import PropContract.Proofs.Tree.Forest

/-!
# What the form leaves open

A form allows any text for a number, a method without a name and any node for the name of a shorthand property,
for a variable of a statement, for a specifier and its name, and for the name of a module. The parser makes none
of these, except that a static block is a method without a name.
-/

namespace PropContract

/-- Whether a node has the form `form` over some two children. -/
def Arena.IsPair (a : Arena) (form : Child → Child → Form) (id : NodeId) : Prop :=
  ∃ x y, a.form? (some id) = some (form x y)

/-- Whether a child is missing or a string. -/
def Arena.IsStringOrMissing (a : Arena) (c : Child) : Prop :=
  c = none ∨ ∃ text, a.form? c = some (.literal .string text)

/-- Whether a child is missing or written out as a name. -/
def Arena.IsNameOrMissing (a : Arena) (c : Child) : Prop :=
  c = none ∨ ∃ text, a.propertyNameText c = some text

/-- Whether a node of this form and with these modifiers has the names and parts that it should, over the
nodes of `a`. -/
def Form.Lawful (a : Arena) (modifiers : Modifiers) : Form → Prop
  | .literal .numeric text => Text.Numeral.IsNumeral text
  | .shorthandProperty name => ∃ text, a.form? (some name) = some (.identifier text)
  | .methodDeclaration none _ => modifiers = { isStatic := true }
  | .variableStatement _ declarations => ∀ id ∈ declarations, a.IsPair .variableDeclaration id
  | .importDeclaration _ _ named specifier =>
    (∀ id ∈ named.getD [], a.IsPair .importSpecifier id) ∧ a.IsStringOrMissing specifier
  | .importSpecifier propertyName _ => a.IsNameOrMissing propertyName
  | .exportDeclaration clause _ _ => ∀ id ∈ clause.getD [], a.IsPair .exportSpecifier id
  | _ => True

theorem Arena.IsPair.mono {a b : Arena} {form : Child → Child → Form} {id : NodeId}
    (h : a.IsPair form id) (hgrows : a.Grows b) : b.IsPair form id := by
  obtain ⟨x, y, hform⟩ := h
  exact ⟨x, y, hgrows _ _ hform⟩

theorem Arena.IsStringOrMissing.mono {a b : Arena} {c : Child} (h : a.IsStringOrMissing c)
    (hgrows : a.Grows b) : b.IsStringOrMissing c := by
  cases c with
  | none => exact .inl rfl
  | some id =>
      obtain hnone | ⟨text, hform⟩ := h
      · exact nomatch hnone
      · exact .inr ⟨text, hgrows _ _ hform⟩

theorem Arena.IsNameOrMissing.mono {a b : Arena} {c : Child} (h : a.IsNameOrMissing c)
    (hgrows : a.Grows b) : b.IsNameOrMissing c := by
  cases c with
  | none => exact .inl rfl
  | some id =>
      obtain hnone | ⟨text, htext⟩ := h
      · exact nomatch hnone
      · refine .inr ⟨text, ?_⟩
        unfold propertyNameText at htext ⊢
        cases hform : a.form? (some id) with
        | none => rw [hform] at htext; exact nomatch htext
        | some form => rwa [hgrows _ _ hform, ← hform]

theorem Form.Lawful.mono {a b : Arena} {form : Form} {modifiers : Modifiers}
    (h : form.Lawful a modifiers) (hgrows : a.Grows b) : form.Lawful b modifiers := by
  unfold Form.Lawful at h ⊢
  split
  · exact h
  · obtain ⟨text, htext⟩ := h
    exact ⟨text, hgrows _ _ htext⟩
  · exact h
  · exact fun id hid => (h id hid).mono hgrows
  · exact ⟨fun id hid => (h.1 id hid).mono hgrows, h.2.mono hgrows⟩
  · exact h.mono hgrows
  · exact fun id hid => (h id hid).mono hgrows
  · trivial

namespace Arena

variable {a : Arena} {n : Node}

/-- Whether every node has the names and parts that it should. -/
def Lawful (a : Arena) : Prop :=
  ∀ id n, a.get? id = some n → n.form.Lawful a n.modifiers

theorem lawful_empty : Lawful {} := fun _ _ h => by simp [get?] at h

/-- A lawful node keeps a tree lawful. -/
theorem Lawful.add (h : a.Lawful) (hn : n.form.Lawful a n.modifiers) : (a.add n).Lawful := by
  intro id m hm
  have hold {k : Node} (hk : k.form.Lawful a k.modifiers) : k.form.Lawful (a.add n) k.modifiers :=
    hk.mono (grows_add n)
  rw [get?_add] at hm
  split at hm
  · cases hm
    exact hold hn
  · split at hm
    · obtain ⟨m', hm', rfl⟩ := Option.map_eq_some_iff.mp hm
      exact hold (h id m' hm')
    · exact hold (h id m hm)

/-- The name of a shorthand property is an identifier. -/
theorem Lawful.shorthand (h : a.Lawful) {id : NodeId} {name : NodeId}
    (hform : a.form? (some id) = some (.shorthandProperty name)) :
    ∃ text, a.form? (some name) = some (.identifier text) := by
  obtain ⟨n, hn, hform⟩ := exists_get?_of_form? hform
  have hlawful := h id n hn
  rwa [hform] at hlawful

/-- What a node in a lawful tree has. -/
theorem Lawful.of_form? (h : a.Lawful) {id : NodeId} {form : Form} (hform : a.form? (some id) = some form) :
    ∃ modifiers, form.Lawful a modifiers := by
  obtain ⟨n, hn, rfl⟩ := exists_get?_of_form? hform
  exact ⟨n.modifiers, h id n hn⟩

end Arena

end PropContract
