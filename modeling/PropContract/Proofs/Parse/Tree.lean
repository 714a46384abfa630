import PropContract.Proofs.Parse.File
import PropContract.Proofs.Tree.Links

/-!
# The tree of a module

Whatever the text is, its tree is a forest under one root. Where the text has no errors, the spans of the
nodes describe it.
-/

namespace PropContract

open Text

namespace Arena

variable {a : Arena} {src : Source} {lo hi : Nat} {row : List Child} {c e : NodeId} {m k : Node}

/-- Whether the children that are there stand in their parent, in the order of the text and apart from
each other, and nodes without children are what the text says. -/
structure Describes (src : Source) (a : Arena) : Prop where
  span : ∀ id n, a.get? id = some n → n.start ≤ n.stop ∧ n.stop ≤ src.size
  inside : ∀ id n, a.get? id = some n → ∀ c, some c ∈ n.form.children →
    ∃ m, a.get? c = some m ∧ n.start ≤ m.start ∧ m.stop ≤ n.stop
  ordered : ∀ id n, a.get? id = some n → n.form.children.reduceOption.Pairwise fun c e =>
    ∀ m k, a.get? c = some m → a.get? e = some k → m.stop ≤ k.start
  spells : ∀ id n, a.get? id = some n → n.form.Spells src n.start n.stop

theorem Row.mem (h : a.Row lo row hi) (hc : some c ∈ row) :
    ∃ m, a.get? c = some m ∧ lo ≤ m.start ∧ m.stop ≤ hi := by
  induction row generalizing lo with
  | nil => exact nomatch hc
  | cons x xs ih =>
      obtain ⟨id, n, hx, hn, hle, hspan, hstop, hrest⟩ := h
      rcases List.mem_cons.mp hc with hc | hc
      · obtain rfl := Option.some.inj (hc.trans hx)
        exact ⟨n, hn, hle, hstop⟩
      · obtain ⟨m, hm, hstart, hstop⟩ := ih hrest hc
        exact ⟨m, hm, by omega, hstop⟩

theorem Row.pairwise (h : a.Row lo row hi) : row.reduceOption.Pairwise fun c e =>
    ∀ m k, a.get? c = some m → a.get? e = some k → m.stop ≤ k.start := by
  induction row generalizing lo with
  | nil => exact .nil
  | cons x xs ih =>
      obtain ⟨id, n, rfl, hn, -, -, -, hrest⟩ := h
      rw [List.reduceOption_cons_of_some]
      refine .cons (fun e he m k hm hk => ?_) (ih hrest)
      obtain ⟨k', hk', hstart, -⟩ := hrest.mem (List.reduceOption_mem_iff.mp he)
      obtain rfl := Option.some.inj (hn.symm.trans hm)
      obtain rfl := Option.some.inj (hk'.symm.trans hk)
      exact hstart

theorem Spanned.describes (h : a.Spanned src) : a.Describes src where
  span id n hn := ⟨(h id n hn).1, (h id n hn).2.1⟩
  inside id n hn c hc := (h id n hn).2.2.1.mem (Form.mem_row_iff.mpr hc)
  ordered id n hn := by
    rw [← Form.reduceOption_row]
    exact (h id n hn).2.2.1.pairwise
  spells id n hn := (h id n hn).2.2.2

end Arena

namespace Module

open ParserState

/-- Every tree is a forest, the root is its last node, and following links comes to an end. Nodes are numbered
without a bound here. Where a number has 32 bits, this is the tree of every text with fewer than `2 ^ 32` nodes. -/
theorem forest_parse (fileName text : String) :
    let m := Module.parse fileName text
    m.arena.Forest ∧ m.arena.LinksEnd ∧ m.root + 1 = m.arena.size ∧
      ∃ statements, m.arena.form? (some m.root) = some (.sourceFile statements fileName) := by
  obtain ⟨t, -, -, harena, hroot, -⟩ := exists_moves fileName text
  have hforest := forest_arena fileName text
  exact ⟨hforest, hforest.linksEnd, harena ▸ hroot, exists_root fileName text⟩

/-- Without errors, the spans of the nodes describe the text. Offsets are without a bound here. Where they have 32
bits, these are the spans in every text of fewer than `2 ^ 32` bytes. -/
theorem describes_parse (fileName text : String) (h : (Module.parse fileName text).errors = []) :
    (Module.parse fileName text).arena.Describes (.ofString text) :=
  (spanned_parse fileName text h).describes

theorem describes_parse_declaration :
    (Module.parse "a.js" "let a = ['b', /c/];").errors = [] ∧
      (Module.parse "a.js" "let a = ['b', /c/];").arena.Describes (.ofString "let a = ['b', /c/];") := by
  have herrors : (Module.parse "a.js" "let a = ['b', /c/];").errors = [] := by decide +kernel
  exact ⟨herrors, describes_parse _ _ herrors⟩

end Module

end PropContract
