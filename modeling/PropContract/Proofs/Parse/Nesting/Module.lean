import PropContract.Proofs.Parse.Binary
import PropContract.Proofs.Parse.Nesting.Statement
import PropContract.Proofs.Parse.Tree

/-!
# How deep a file nests

Whatever the text of a file is, the limit on open expressions bounds the edges to the side on every way down
its tree, as far as they are not ungated. Nothing bounds those that are.
-/

namespace PropContract

/-! ## Powers -/

namespace BinaryTree

/-- How many operators lie one in the right operand of the other. -/
def spine : BinaryTree → Nat
  | atom _ => 0
  | node _ _ right => right.spine + 1

/-- On the way to the last name of a tree there is one edge to the side for each operator of its spine. -/
theorem Stands.exists_descends {a : Arena} {t : BinaryTree} {e : Child} (h : t.Stands a e) :
    ∃ id last name ungated, e = some id ∧ a.Descends id last t.spine ungated ∧
      a.form? (some last) = some (.identifier name) := by
  induction h with
  | @atom x e h =>
      cases e with
      | none => exact nomatch h
      | some id => exact ⟨id, id, x.name, 0, rfl, .here id, h⟩
  | @node left right operator e l r h _ _ _ ih =>
      obtain ⟨c, last, name, ungated, rfl, hdown, hlast⟩ := ih
      cases e with
      | none => exact nomatch h
      | some id => exact ⟨id, last, name, _, rfl, .edge h (i := 1) rfl hdown, hlast⟩
  | @parenthesized t e inner h _ ih =>
      obtain ⟨c, last, name, ungated, rfl, hdown, hlast⟩ := ih
      cases e with
      | none => exact nomatch h
      | some id => exact ⟨id, last, name, _, rfl, .edge h (i := 0) rfl hdown, hlast⟩

theorem precedence_power : TokenKind.precedence (.punct .asteriskAsterisk) ≠ 0 := by decide

/-- A name to the power of itself, so many times over. -/
def powers (a : Atom) : Nat → BinaryTree
  | 0 => .atom a
  | n + 1 => .node (.atom a) ⟨.punct .asteriskAsterisk, precedence_power⟩ (powers a n)

theorem spine_powers (a : Atom) (n : Nat) : (powers a n).spine = n := by
  induction n with
  | zero => rfl
  | succ n ih => rw [powers, spine, ih]

/-- Exponents stand without parentheses. -/
theorem nesting_powers (a : Atom) (n : Nat) : (powers a n).nesting = 0 := by
  induction n with
  | zero => rfl
  | succ n ih =>
      have hbinding : ¬ (powers a n).binding < TokenKind.rightFloor (.punct .asteriskAsterisk) := by
        cases n with
        | zero => exact Nat.not_lt.mpr (Nat.le_succ 12)
        | succ n => exact Nat.lt_irrefl 12
      rw [powers, nesting, ih, if_neg hbinding]
      rfl

end BinaryTree

namespace Module

theorem nests_parse (fileName text : String) :
    (parse fileName text).arena.Nests (11 * maxExpressionDepth + 5) (some (parse fileName text).root) := by
  have h := (Parser.fileStatements_builds (s := { lexer := Lexer.ofString text }) rfl).after
  exact Arena.nests_add (Arena.slots_of_forall (List.forall_mem_map.mpr h))

/-- Of the edges to the side on a way down from the root of a file, all but the ungated ones are bounded by
the limit on open expressions: each open expression goes through at most eleven precedences. -/
theorem parse_aside_le (fileName text : String) {id : NodeId} {aside ungated : Nat}
    (h : (parse fileName text).arena.Descends (parse fileName text).root id aside ungated) :
    aside ≤ 11 * maxExpressionDepth + 4 + ungated :=
  (nests_parse fileName text).aside_le h

/-- To the exponent, one ungated edge to the side. -/
theorem parse_aside_le_power :
    (parse "a.js" "a ** b").arena.Descends (parse "a.js" "a ** b").root 1 1 1 ∧
      1 ≤ 11 * maxExpressionDepth + 4 + 1 := by
  have hroot : (parse "a.js" "a ** b").arena.form? (some (parse "a.js" "a ** b").root) =
      some (.sourceFile [3] "a.js") := by decide +kernel
  have hstatement : (parse "a.js" "a ** b").arena.form? (some 3) = some (.expressionStatement (some 2)) := by
    decide +kernel
  have hpower : (parse "a.js" "a ** b").arena.form? (some 2) =
      some (.binary (some 0) (.punct .asteriskAsterisk) (some 1)) := by decide +kernel
  have hdown : (parse "a.js" "a ** b").arena.Descends (parse "a.js" "a ** b").root 1 1 1 :=
    .edge hroot (i := 0) rfl (.edge hstatement (i := 0) rfl (.edge hpower (i := 1) rfl (.here 1)))
  exact ⟨hdown, parse_aside_le "a.js" "a ** b" hdown⟩

/-- The text of a tree is parsed without errors, and then nests at least as deep as the tree goes to the
right. -/
theorem exists_descends_binaryTree (fileName : String) (t : BinaryTree)
    (hnesting : 2 * (t.nesting + 1) ≤ maxExpressionDepth) :
    (parse fileName t.text).errors = [] ∧ ∃ last name ungated,
      (parse fileName t.text).arena.Descends (parse fileName t.text).root last t.spine ungated ∧
      (parse fileName t.text).arena.form? (some last) = some (.identifier name) := by
  have hstands := parse_stands fileName t hnesting
  obtain ⟨ids, hroot⟩ := exists_root fileName t.text
  generalize parse fileName t.text = m at hstands hroot ⊢
  obtain ⟨herrors, id, hstatements, e, hid, he⟩ := hstands
  obtain ⟨c, last, name, ungated, rfl, hdown, hlast⟩ := he.exists_descends
  obtain rfl : ids = [id] := by
    rwa [statements, Arena.statements, hroot] at hstatements
  exact ⟨herrors, last, name, _, .edge hroot (i := 0) rfl (.edge hid (i := 0) rfl hdown), hlast⟩

/-- No number bounds the edges to the side on the ways to the leaves, even of files without errors: exponents
of exponents are ungated. -/
theorem not_aside_bounded :
    ¬ ∃ bound, ∀ fileName text, (parse fileName text).errors = [] → ∀ id aside ungated,
      (parse fileName text).arena.Descends (parse fileName text).root id aside ungated →
      (∃ form, (parse fileName text).arena.form? (some id) = some form ∧ form.children = []) →
      aside ≤ bound := by
  rintro ⟨bound, h⟩
  obtain ⟨t, hspine, hnesting⟩ : ∃ t : BinaryTree, t.spine = bound + 1 ∧ t.nesting = 0 :=
    ⟨_, BinaryTree.spine_powers ⟨"a", by decide, by decide +kernel, by decide⟩ _, BinaryTree.nesting_powers _ _⟩
  obtain ⟨herrors, last, name, ungated, hdown, hlast⟩ :=
    exists_descends_binaryTree "a.js" t (by rw [hnesting]; decide)
  have hle := h _ _ herrors _ _ _ hdown ⟨_, hlast, rfl⟩
  omega

end Module

end PropContract
