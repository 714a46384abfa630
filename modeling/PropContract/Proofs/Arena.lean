import PropContract.Tree.Arena

/-!
# Lookups in a tree

A node keeps its form and its number while nodes are added.
-/

namespace PropContract

namespace Arena

variable {a : Arena}

@[simp]
theorem form?_none : a.form? none = none := rfl

theorem unparenthesized_eq_self {v : Child} (h : ∀ e, a.form? v ≠ some (.parenthesized e)) :
    a.unparenthesized v = v := by
  unfold unparenthesized
  cases a.size with
  | zero => rfl
  | succ n =>
      unfold stripParentheses
      split
      · rename_i e he
        exact absurd he (h e)
      · rfl

@[simp]
theorem unparenthesized_none : a.unparenthesized none = none :=
  unparenthesized_eq_self (by simp)

theorem exists_get?_of_form? {id : NodeId} {form : Form} (h : a.form? (some id) = some form) :
    ∃ node, a.get? id = some node ∧ node.form = form := by
  cases hget : a.get? id with
  | none => simp [form?, hget] at h
  | some node => exact ⟨node, rfl, by simpa [form?, hget] using h⟩

theorem unparenthesized_of_form? {id : NodeId} {form : Form} (h : a.form? (some id) = some form)
    (hform : ∀ e, form ≠ .parenthesized e) : a.unparenthesized (some id) = some id := by
  apply unparenthesized_eq_self
  intro e he
  exact hform e (Option.some.inj (h.symm.trans he))

theorem form?_of_isIdentifier {id : NodeId} (h : (a.get? id).any (·.isIdentifier) = true) :
    ∃ text, a.form? (some id) = some (.identifier text) := by
  obtain ⟨n, hn, hidentifier⟩ := Option.any_eq_true _ _ |>.mp h
  rw [Node.isIdentifier] at hidentifier
  split at hidentifier
  · rename_i text hform
    exact ⟨text, by simp [form?, hn, hform]⟩
  · cases hidentifier

/-! ## Added nodes -/

theorem form?_adopt (parent : NodeId) (child c : Child) :
    (adopt parent a child).form? c = a.form? c := by
  cases child with
  | none => rfl
  | some id =>
      cases c with
      | none => rfl
      | some i =>
          simp only [form?, get?, adopt, Array.getElem?_modify, Option.bind_eq_bind,
            Option.bind_some]
          by_cases hi : id = i
          · cases a.nodes[i]? <;> simp [hi]
          · simp [hi]

theorem size_adopt (parent : NodeId) (child : Child) : (adopt parent a child).size = a.size := by
  cases child with
  | none => rfl
  | some id => exact Array.size_modify

theorem foldl_adopt (parent : NodeId) (children : List Child) :
    (children.foldl (adopt parent) a).size = a.size ∧
      ∀ c, (children.foldl (adopt parent) a).form? c = a.form? c := by
  induction children generalizing a with
  | nil => exact ⟨rfl, fun _ => rfl⟩
  | cons child children ih =>
      obtain ⟨hsize, hform⟩ := ih (a := adopt parent a child)
      exact ⟨hsize.trans (size_adopt parent child), fun c => (hform c).trans (form?_adopt parent child c)⟩

theorem form?_push (n : Node) (id : NodeId) :
    (Arena.mk (a.nodes.push n)).form? (some id) =
      if id = a.size then some n.form else a.form? (some id) := by
  simp only [form?, get?, Option.bind_eq_bind, Option.bind_some, Array.getElem?_push]
  by_cases hid : id = a.nodes.size
  · simp [hid, size]
  · simp [hid, size]

theorem form?_add (n : Node) (id : NodeId) :
    (a.add n).form? (some id) = if id = a.size then some n.form else a.form? (some id) := by
  obtain ⟨hsize, hform⟩ := foldl_adopt (a := a) a.size n.form.children
  rw [add, form?_push, hsize, hform]

theorem lt_size_of_form? {id : NodeId} {form : Form} (h : a.form? (some id) = some form) :
    id < a.size := by
  apply Nat.lt_of_not_le
  intro hle
  have hnone : a.nodes[id]? = none := Array.getElem?_eq_none hle
  simp [form?, get?, hnone] at h

/-- Whether all nodes have the same form in a larger tree. -/
def Grows (a b : Arena) : Prop :=
  ∀ id form, a.form? (some id) = some form → b.form? (some id) = some form

theorem Grows.refl (a : Arena) : a.Grows a := fun _ _ h => h

theorem Grows.trans {b c : Arena} (h : a.Grows b) (h' : b.Grows c) : a.Grows c :=
  fun id form hform => h' id form (h id form hform)

theorem grows_add (n : Node) : a.Grows (a.add n) := by
  intro id form h
  rw [form?_add, if_neg (Nat.ne_of_lt (lt_size_of_form? h))]
  exact h

end Arena

end PropContract
