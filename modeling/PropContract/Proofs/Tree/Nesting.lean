import PropContract.Proofs.Arena

/-!
# How deep a tree nests

On a way down a tree, an edge to the first child of a node costs nothing: chains of operators, accesses and
calls lean to that side and are read in loops. An edge to any other child is one to the side. At some of the
edges nothing counts the levels; these are told apart.
-/

namespace PropContract

namespace Form

/-- Whether no level is counted on the way to the `i`-th child: to the right operand of a power, to what a
class extends, and to the parts of a pattern. -/
def isUngated : Form → (i : Nat) → Bool
  | binary _ operator _, i => operator == .punct .asteriskAsterisk && i == 1
  | classExpression .., i | classDeclaration .., i | bindingElement .., i => i == 1
  | objectPattern _, _ | arrayPattern _, _ => true
  | _, _ => false

end Form

namespace Arena

/-- A way down from one node to another, with so many edges to the side and so many of all its edges
ungated. -/
inductive Descends (a : Arena) : NodeId → NodeId → (aside ungated : Nat) → Prop
  | here (id) : Descends a id id 0 0
  | edge {p c id i aside ungated} {form : Form} (hform : a.form? (some p) = some form)
      (hchild : form.children[i]? = some (some c)) (h : Descends a c id aside ungated) :
      Descends a p id (aside + if i = 0 then 0 else 1) (ungated + if form.isUngated i then 1 else 0)

/-- Whether a child is missing, or all ways down from it have fewer than `n` edges to the side, of those
that are not ungated. -/
inductive Nests (a : Arena) : (n : Nat) → Child → Prop
  | none {n} : Nests a n none
  | node {n id} {form : Form} (hform : a.form? (some id) = some form)
      (h : ∀ i c, form.children[i]? = some c →
        Nests a (n + if i = 0 ∨ form.isUngated i = true then 1 else 0) c) :
      Nests a (n + 1) (some id)

variable {a b : Arena} {m n : Nat} {c : Child} {id p : NodeId} {form : Form}

theorem Nests.mono_of_le (h : a.Nests m c) (hab : a.Grows b) (hle : m ≤ n) : b.Nests n c := by
  induction h generalizing n with
  | none => exact .none
  | node hform _ ih =>
      obtain ⟨n, rfl⟩ : ∃ k, n = k + 1 := ⟨n - 1, by omega⟩
      exact .node (hab _ _ hform) fun i c hc => ih i c hc (by omega)

theorem Nests.mono (h : a.Nests n c) (hab : a.Grows b) : b.Nests n c :=
  h.mono_of_le hab (Nat.le_refl n)

theorem Nests.weaken (h : a.Nests m c) (hle : m ≤ n) : a.Nests n c :=
  h.mono_of_le (.refl a) hle

/-- A way down has at most as many edges to the side as its start allows, and one more for each that is
ungated. -/
theorem Nests.aside_le (h : a.Nests (n + 1) (some p)) {aside ungated : Nat}
    (hpath : a.Descends p id aside ungated) : aside ≤ n + ungated := by
  induction hpath generalizing n with
  | here => exact Nat.zero_le _
  | @edge p c id i aside ungated form hform hchild _ ih =>
      obtain _ | ⟨hform', hchildren⟩ := h
      obtain rfl := Option.some.inj (hform.symm.trans hform')
      have hc := hchildren i _ hchild
      by_cases hstraight : i = 0 ∨ form.isUngated i = true
      · rw [if_pos hstraight] at hc
        have hle := ih hc
        obtain rfl | hungated := hstraight
        · rw [if_pos rfl]
          omega
        · rw [if_pos hungated]
          split <;> omega
      · rw [if_neg hstraight] at hc
        obtain ⟨n, rfl⟩ : ∃ k, n = k + 1 := by
          cases hc with
          | node => exact ⟨_, rfl⟩
        have hle := ih hc
        split <;> omega

/-! ## Forms -/

/-- Whether the children of a form allow a node to nest like this. -/
def Slots (a : Arena) (n : Nat) (form : Form) : Prop :=
  ∀ i c, form.children[i]? = some c → a.Nests (n + if i = 0 ∨ form.isUngated i = true then 1 else 0) c

/-- The first child may nest as deep as the node, the others one level less. -/
theorem slots_cons {first : Child} {rest : List Child} (hchildren : form.children = first :: rest)
    (hfirst : a.Nests (n + 1) first) (hrest : ∀ c ∈ rest, a.Nests n c) : a.Slots n form := by
  intro i c hc
  rw [hchildren] at hc
  cases i with
  | zero =>
      obtain rfl := Option.some.inj hc
      rwa [if_pos (.inl rfl)]
  | succ i => exact (hrest c (List.mem_of_getElem? hc)).weaken (Nat.le_add_right _ _)

theorem slots_nil (hchildren : form.children = []) : a.Slots n form := by
  intro i c hc
  rw [hchildren] at hc
  exact nomatch hc

theorem slots_single (hchildren : form.children = [c]) (h : a.Nests (n + 1) c) : a.Slots n form :=
  slots_cons hchildren h nofun

theorem slots_pair {c' : Child} (hchildren : form.children = [c, c']) (h : a.Nests (n + 1) c)
    (h' : a.Nests n c') : a.Slots n form :=
  slots_cons hchildren h (List.forall_mem_singleton.mpr h')

/-- Children that may all stand aside. -/
theorem slots_of_forall (h : ∀ c ∈ form.children, a.Nests n c) : a.Slots n form :=
  fun _ c hc => (h c (List.mem_of_getElem? hc)).weaken (Nat.le_add_right _ _)

/-- Children to all of which the edges are ungated. -/
theorem slots_ungated (hungated : ∀ i, form.isUngated i = true) (h : ∀ c ∈ form.children, a.Nests (n + 1) c) :
    a.Slots n form := by
  intro i c hc
  rw [if_pos (.inr (hungated i))]
  exact h c (List.mem_of_getElem? hc)

/-- Where the edge to the second child is ungated. -/
theorem slots_second {first second : Child} {rest : List Child}
    (hchildren : form.children = first :: second :: rest) (hungated : form.isUngated 1 = true)
    (hfirst : a.Nests (n + 1) first) (hsecond : a.Nests (n + 1) second) (hrest : ∀ c ∈ rest, a.Nests n c) :
    a.Slots n form := by
  intro i c hc
  rw [hchildren] at hc
  match i with
  | 0 =>
      obtain rfl := Option.some.inj hc
      rwa [if_pos (.inl rfl)]
  | 1 =>
      obtain rfl := Option.some.inj hc
      rwa [if_pos (.inr hungated)]
  | i + 2 => exact (hrest c (List.mem_of_getElem? hc)).weaken (Nat.le_add_right _ _)

theorem nests_add {node : Node} (h : a.Slots n node.form) : (a.add node).Nests (n + 1) (some a.size) :=
  .node ((form?_add node _).trans (if_pos rfl)) fun i c hc => (h i c hc).mono (grows_add node)

end Arena

end PropContract
