import PropContract.Proofs.Arena
import Mathlib.Data.List.ReduceOption
import Mathlib.Data.List.Nodup

/-!
# Trees of nodes

A node table is a forest: children come before their parents, no node is a child twice, and every
node names the parent that lists it. Adding a node keeps this when its children have no parent yet.
-/

namespace PropContract

namespace Form

/-- A place for a child that may stay empty: the child, if there is one. -/
def optional (c : Child) : List Child := c.toList.map some

/-- The children of a form, and the places for children that ought not to be empty. -/
def row : Form → List Child
  | sourceFile statements _ => statements.map some
  | identifier _ | privateIdentifier _ | literal _ _ | constant _ => []
  | objectLiteral elements => elements.map some
  | arrayLiteral elements => elements
  | propertyAssignment name initializer => [some name, initializer]
  | shorthandProperty name => [some name]
  | spreadAssignment e | spreadElement e | computedName e => [e]
  | omitted => []
  | propertyAccess target name _ => [target, name]
  | elementAccess target argument _ => [target, argument]
  | call callee arguments _ => callee :: arguments
  | new callee arguments => callee :: arguments.getD []
  | taggedTemplate tag template => [tag, template]
  | parenthesized e => [e]
  | binary left _ right => [left, right]
  | conditional condition whenTrue whenFalse => [condition, whenTrue, whenFalse]
  | prefixUnary _ operand | postfixUnary _ operand => [operand]
  | arrowFunction body => [body]
  | functionExpression name body | functionDeclaration name body => optional name ++ [body]
  | classExpression name heritage members | classDeclaration name heritage members =>
    optional name ++ optional heritage ++ members.map some
  | markup | block => []
  | variableStatement _ declarations => declarations.map some
  | variableDeclaration name initializer => name :: optional initializer
  | objectPattern elements | arrayPattern elements => elements.map some
  | bindingElement propertyName name initializer _ =>
    optional propertyName ++ name :: optional initializer
  | propertyDeclaration name initializer => some name :: optional initializer
  | methodDeclaration name body => optional name ++ [body]
  | importDeclaration defaultName ns named specifier =>
    optional defaultName ++ optional ns ++ (named.getD []).map some ++ [specifier]
  | importSpecifier propertyName name | exportSpecifier propertyName name =>
    optional propertyName ++ [name]
  | exportDeclaration clause ns specifier =>
    (clause.getD []).map some ++ optional ns ++ optional specifier
  | exportAssignment e | expressionStatement e => [e]
  | emptyStatement | skippedStatement => []

theorem reduceOption_cons (c : Child) (cs : List Child) :
    (c :: cs).reduceOption = c.toList ++ cs.reduceOption := by
  cases c <;> rfl

theorem reduceOption_optional (c : Child) : (optional c).reduceOption = c.toList := by
  cases c <;> rfl

theorem reduceOption_map_some {α : Type} (xs : List α) : (xs.map some).reduceOption = xs := by
  simp [List.reduceOption]

theorem map_some_reduceOption_sublist (cs : List Child) : (cs.reduceOption.map some).Sublist cs := by
  induction cs with
  | nil => exact .slnil
  | cons c cs ih =>
      cases c with
      | none => exact .cons _ ih
      | some id => exact .cons_cons _ ih

/-- The children that are there are the same in the row. -/
theorem reduceOption_row (form : Form) : form.row.reduceOption = form.children.reduceOption := by
  cases form <;>
    simp [row, children, List.reduceOption_append, reduceOption_optional, reduceOption_map_some,
      reduceOption_cons]

theorem mem_row_iff {form : Form} {id : NodeId} : some id ∈ form.row ↔ some id ∈ form.children := by
  rw [← List.reduceOption_mem_iff, ← List.reduceOption_mem_iff, reduceOption_row]

end Form

namespace Arena

variable {a : Arena}

/-- Whether children come before their parents, each under one parent, which it names. -/
structure Forest (a : Arena) : Prop where
  below : ∀ p n, a.get? p = some n → ∀ id, some id ∈ n.form.children → id < p
  once : (a.nodes.toList.flatMap fun n => n.form.children.reduceOption).Nodup
  parent : ∀ id n, a.get? id = some n → ∀ p,
    n.parent = some p ↔ ∃ m, a.get? p = some m ∧ some id ∈ m.form.children

theorem lt_size_of_get? {id : NodeId} {n : Node} (h : a.get? id = some n) : id < a.size := by
  apply Nat.lt_of_not_le
  intro hle
  rw [get?, Array.getElem?_eq_none hle] at h
  cases h

theorem get?_adopt (parent : NodeId) (child : Child) (id : NodeId) :
    (adopt parent a child).get? id =
      if child = some id then (a.get? id).map fun n => { n with parent := some parent }
      else a.get? id := by
  cases child with
  | none => rfl
  | some c => simp only [adopt, get?, Array.getElem?_modify, Option.some.injEq]

theorem get?_foldl_adopt (parent : NodeId) (children : List Child) (id : NodeId) :
    (children.foldl (adopt parent) a).get? id =
      if some id ∈ children then (a.get? id).map fun n => { n with parent := some parent }
      else a.get? id := by
  induction children generalizing a with
  | nil => rfl
  | cons child children ih =>
      rw [List.foldl_cons, ih, get?_adopt]
      by_cases hchild : child = some id
      · subst hchild
        cases a.get? id <;> simp
      · simp [hchild, Ne.symm hchild]

/-- The new node, the children with their parent, and all other nodes as they were. -/
theorem get?_add (n : Node) (id : NodeId) :
    (a.add n).get? id =
      if id = a.size then some n
      else if some id ∈ n.form.children then
        (a.get? id).map fun m => { m with parent := some a.size }
      else a.get? id := by
  have hsize : (n.form.children.foldl (adopt a.size) a).nodes.size = a.size :=
    (foldl_adopt (a := a) a.size n.form.children).1
  rw [add, get?, Array.getElem?_push, hsize]
  split
  · rfl
  · exact get?_foldl_adopt a.size n.form.children id

theorem size_add (n : Node) : (a.add n).size = a.size + 1 := by
  rw [add, size, Array.size_push]
  exact congrArg (· + 1) (foldl_adopt (a := a) a.size n.form.children).1

/-- Adding changes parents only. -/
theorem exists_get?_add {n m : Node} {id : NodeId} (h : a.get? id = some m) :
    ∃ parent, (a.add n).get? id = some { m with parent } := by
  rw [get?_add, if_neg (Nat.ne_of_lt (lt_size_of_get? h)), h]
  split
  · exact ⟨some a.size, rfl⟩
  · exact ⟨m.parent, rfl⟩

/-- A node is the new one or an older one. -/
theorem get?_add_cases {n m : Node} {id : NodeId} (h : (a.add n).get? id = some m) :
    id = a.size ∧ m = n ∨ ∃ m', a.get? id = some m' ∧ m'.start = m.start ∧ m'.stop = m.stop ∧
      m'.form = m.form := by
  rw [get?_add] at h
  split at h
  · exact .inl ⟨‹_›, (Option.some.inj h).symm⟩
  · split at h
    · obtain ⟨m', hm', rfl⟩ := Option.map_eq_some_iff.mp h
      exact .inr ⟨m', hm', rfl, rfl, rfl⟩
    · exact .inr ⟨m, h, rfl, rfl, rfl⟩

theorem forest_empty : Forest {} :=
  ⟨fun p n h => by simp [get?] at h, List.nodup_nil, fun id n h => by simp [get?] at h⟩

theorem map_form_adopt (parent : NodeId) (child : Child) :
    (adopt parent a child).nodes.toList.map (·.form) = a.nodes.toList.map (·.form) := by
  cases child with
  | none => rfl
  | some id =>
      apply List.ext_getElem?
      intro i
      simp only [adopt, List.getElem?_map, Array.getElem?_toList, Array.getElem?_modify]
      split
      · cases a.nodes[i]? <;> rfl
      · rfl

theorem map_form_add (n : Node) :
    (a.add n).nodes.toList.map (·.form) = a.nodes.toList.map (·.form) ++ [n.form] := by
  have hfold (children : List Child) (b : Arena) :
      (children.foldl (adopt a.size) b).nodes.toList.map (·.form) = b.nodes.toList.map (·.form) := by
    induction children generalizing b with
    | nil => rfl
    | cons child children ih => exact (ih _).trans (map_form_adopt a.size child)
  rw [add, Array.toList_push, List.map_append, hfold]
  rfl

/-- A new node lists its children behind those that the nodes already list. -/
theorem flatMap_children_add (n : Node) :
    ((a.add n).nodes.toList.flatMap fun n => n.form.children.reduceOption) =
      (a.nodes.toList.flatMap fun n => n.form.children.reduceOption) ++ n.form.children.reduceOption := by
  have hmap (b : Arena) : (b.nodes.toList.flatMap fun n => n.form.children.reduceOption) =
      (b.nodes.toList.map (·.form)).flatMap fun form => form.children.reduceOption := by
    rw [List.flatMap_map]
  rw [hmap, hmap, map_form_add, List.flatMap_append, List.flatMap_singleton]

/-- A child is listed by the new node or by the node that listed it before. -/
theorem exists_lists_add_iff (n : Node) (p id : NodeId) :
    (∃ k, (a.add n).get? p = some k ∧ some id ∈ k.form.children) ↔
      p = a.size ∧ some id ∈ n.form.children ∨ ∃ k, a.get? p = some k ∧ some id ∈ k.form.children := by
  constructor
  · rintro ⟨k, hk, hid⟩
    obtain ⟨rfl, rfl⟩ | ⟨k', hk', -, -, hform⟩ := get?_add_cases hk
    · exact .inl ⟨rfl, hid⟩
    · exact .inr ⟨k', hk', hform ▸ hid⟩
  · rintro (⟨rfl, hid⟩ | ⟨k, hk, hid⟩)
    · exact ⟨n, by rw [get?_add, if_pos rfl], hid⟩
    · obtain ⟨parent, hk'⟩ := exists_get?_add (n := n) hk
      exact ⟨_, hk', hid⟩

/-- A node over children without a parent, none of them twice, keeps a forest one. -/
theorem Forest.add {n : Node} (h : a.Forest) (hparent : n.parent = none)
    (hloose : ∀ id, some id ∈ n.form.children → ∃ m, a.get? id = some m ∧ m.parent = none)
    (hnodup : n.form.children.reduceOption.Nodup) : (a.add n).Forest := by
  have hchild {id : NodeId} (hid : some id ∈ n.form.children) : id < a.size := by
    obtain ⟨m, hm, -⟩ := hloose id hid
    exact lt_size_of_get? hm
  have horphan {id p : NodeId} {m : Node} (hid : some id ∈ n.form.children) (hm : a.get? p = some m)
      (hlists : some id ∈ m.form.children) : False := by
    obtain ⟨k, hk, hnone⟩ := hloose id hid
    rw [(h.parent id k hk p).mpr ⟨m, hm, hlists⟩] at hnone
    exact nomatch hnone
  refine ⟨fun p m hm id hid => ?_, ?_, fun id m hm p => ?_⟩
  · obtain ⟨rfl, rfl⟩ | ⟨m', hm', -, -, hform⟩ := get?_add_cases hm
    · exact hchild hid
    · exact h.below p m' hm' id (hform ▸ hid)
  · rw [flatMap_children_add, List.nodup_append]
    refine ⟨h.once, hnodup, fun id hid id' hid' heq => ?_⟩
    subst heq
    obtain ⟨m, hm, hlists⟩ := List.mem_flatMap.mp hid
    obtain ⟨p, hp⟩ := List.getElem?_of_mem hm
    exact horphan (List.reduceOption_mem_iff.mp hid') (by rwa [Array.getElem?_toList] at hp)
      (List.reduceOption_mem_iff.mp hlists)
  · rw [exists_lists_add_iff]
    rw [get?_add] at hm
    split at hm
    · -- the new node, which no node lists
      rename_i hid
      obtain rfl := Option.some.inj hm
      subst hid
      rw [hparent]
      refine ⟨(nomatch ·), ?_⟩
      rintro (⟨-, hid⟩ | ⟨k, hk, hid⟩)
      · exact absurd (hchild hid) (Nat.lt_irrefl _)
      · exact absurd (Nat.lt_trans (h.below p k hk _ hid) (lt_size_of_get? hk)) (Nat.lt_irrefl _)
    · split at hm
      · -- a child of the new node, which no older node lists
        rename_i hid
        obtain ⟨m', -, rfl⟩ := Option.map_eq_some_iff.mp hm
        constructor
        · rintro ⟨⟩
          exact .inl ⟨rfl, hid⟩
        · rintro (⟨rfl, -⟩ | ⟨k, hk, hlist⟩)
          · rfl
          · exact (horphan hid hk hlist).elim
      · rename_i hid
        rw [h.parent id m hm p]
        exact ⟨.inr, fun hor => hor.resolve_left fun hnew => hid hnew.2⟩

end Arena

end PropContract
