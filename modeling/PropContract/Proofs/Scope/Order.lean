import PropContract.Proofs.Parse.Tree
import PropContract.Proofs.Scope.Declares

/-!
# The order of exports

The exports of a module are different nodes, and they stand in it in the order in which they are listed.
-/

namespace PropContract.Arena

variable {a : Arena} {p q id : NodeId} {n m : Node}

/-- Whether a node is another one or one of its children. -/
def Within (a : Arena) (id p : NodeId) : Prop :=
  ∃ n, a.get? p = some n ∧ (id = p ∨ some id ∈ n.form.children)

theorem Forest.nodup_children (h : a.Forest) (hn : a.get? p = some n) : n.form.children.reduceOption.Nodup := by
  have hmem : n ∈ a.nodes.toList := List.mem_of_getElem? (by rwa [Array.getElem?_toList])
  exact (List.nodup_flatMap.mp h.once).1 n hmem

/-- Different children of one node have no part in common. -/
theorem Forest.within_unique (h : a.Forest) {root : NodeId} (hroot : a.get? root = some m)
    (hp : some p ∈ m.form.children) (hq : some q ∈ m.form.children) (hidp : a.Within id p)
    (hidq : a.Within id q) : p = q := by
  obtain ⟨k, hk, hidp⟩ := hidp
  obtain ⟨k', hk', hidq⟩ := hidq
  have hbelow {child parent : NodeId} {node : Node} (hnode : a.get? parent = some node)
      (hparent : some parent ∈ m.form.children) (hin : some child ∈ node.form.children)
      (hchild : some child ∈ m.form.children) : False := by
    obtain ⟨c, hc⟩ : ∃ c, a.get? child = some c := by
      have hlt := (h.below _ _ hnode _ hin).trans (lt_size_of_get? hnode)
      exact ⟨_, Array.getElem?_eq_getElem hlt⟩
    have hpar := (h.parent child c hc parent).mpr ⟨node, hnode, hin⟩
    have hroot' := (h.parent child c hc root).mpr ⟨m, hroot, hchild⟩
    obtain rfl := Option.some.inj (hpar.symm.trans hroot')
    exact absurd (h.below _ _ hroot _ hparent) (Nat.lt_irrefl _)
  rcases hidp with rfl | hidp <;> rcases hidq with rfl | hidq
  · rfl
  · exact (hbelow hk' hq hidq hp).elim
  · exact (hbelow hk hp hidp hq).elim
  · obtain ⟨c, hc⟩ : ∃ c, a.get? id = some c := by
      have hlt := (h.below _ _ hk _ hidp).trans (lt_size_of_get? hk)
      exact ⟨_, Array.getElem?_eq_getElem hlt⟩
    exact Option.some.inj (((h.parent id c hc p).mpr ⟨k, hk, hidp⟩).symm.trans
      ((h.parent id c hc q).mpr ⟨k', hk', hidq⟩))

/-- Parts of nodes that follow each other follow each other. -/
theorem Describes.precedes_within {src : Text.Source} (h : a.Describes src) (hpq : a.Precedes p q)
    {id id' : NodeId} (hid : a.Within id p) (hid' : a.Within id' q) : a.Precedes id id' := by
  obtain ⟨k, hk, hid⟩ := hid
  obtain ⟨k', hk', hid'⟩ := hid'
  have hle := hpq k k' hk hk'
  intro n n' hn hn'
  have hstop : n.stop ≤ k.stop := by
    rcases hid with rfl | hid
    · rw [Option.some.inj (hn.symm.trans hk)]
    · obtain ⟨c, hc, -, hstop⟩ := h.inside p k hk id hid
      rwa [Option.some.inj (hn.symm.trans hc)]
  have hstart : k'.start ≤ n'.start := by
    rcases hid' with rfl | hid'
    · rw [Option.some.inj (hn'.symm.trans hk')]
    · obtain ⟨c, hc, hstart, -⟩ := h.inside q k' hk' id' hid'
      rwa [Option.some.inj (hn'.symm.trans hc)]
  omega

theorem within_of_mem_exports {statement : NodeId} {x : Export} (hx : x ∈ a.exports statement) :
    a.Within x.node statement := by
  cases hget : a.get? statement with
  | none =>
      rw [exports, hget] at hx
      exact absurd hx List.not_mem_nil
  | some n =>
      refine ⟨n, hget, ?_⟩
      have hnode := List.mem_map_of_mem (f := Export.node) hx
      rcases exports_nodes_sublist hget with hsub | hsub
      · exact .inl (List.mem_singleton.mp (hsub.subset hnode))
      · exact .inr (List.reduceOption_mem_iff.mp (hsub.subset hnode))

/-- The children of a node are different nodes one after the other. -/
theorem Describes.pairwise_children {src : Text.Source} (h : a.Describes src) (hforest : a.Forest)
    (hn : a.get? p = some n) :
    n.form.children.reduceOption.Pairwise fun id id' => id ≠ id' ∧ a.Precedes id id' :=
  .and (hforest.nodup_children hn) (h.ordered p n hn)

/-- The exports of the statements under one node are different nodes one after the other. -/
theorem Describes.pairwise_exports {src : Text.Source} (h : a.Describes src) (hforest : a.Forest)
    {root : NodeId} {statements : List NodeId} {fileName : String}
    (hroot : a.form? (some root) = some (.sourceFile statements fileName)) :
    (statements.flatMap a.exports).Pairwise fun x y => x.node ≠ y.node ∧ a.Precedes x.node y.node := by
  obtain ⟨m, hm, hform⟩ := exists_get?_of_form? hroot
  have hchildren : m.form.children = statements.map some := by rw [hform]; rfl
  have hstatements := h.pairwise_children hforest hm
  rw [hchildren, Form.reduceOption_map_some] at hstatements
  rw [List.pairwise_flatMap]
  constructor
  · intro statement _
    rw [← List.pairwise_map (f := Export.node) (R := fun id id' => id ≠ id' ∧ a.Precedes id id')]
    cases hget : a.get? statement with
    | none =>
        rw [exports, hget]
        exact .nil
    | some n =>
        rcases exports_nodes_sublist hget with hsub | hsub
        · exact (List.pairwise_singleton _ _).sublist hsub
        · exact (h.pairwise_children hforest hget).sublist hsub
  · refine hstatements.imp_of_mem fun {p q} hp hq hpq x hx y hy => ?_
    have hxp := within_of_mem_exports hx
    have hyq := within_of_mem_exports hy
    have hp : some p ∈ m.form.children := hchildren ▸ List.mem_map_of_mem hp
    have hq : some q ∈ m.form.children := hchildren ▸ List.mem_map_of_mem hq
    refine ⟨fun heq => hpq.1 (hforest.within_unique hm hp hq hxp (heq ▸ hyq)), ?_⟩
    exact h.precedes_within hpq.2 hxp hyq

end PropContract.Arena
