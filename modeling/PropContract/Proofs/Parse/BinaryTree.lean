import PropContract.Proofs.Arena
import PropContract.Proofs.Token.Row

/-!
# Trees of binary operators

Binary operators over names, printed with no more parentheses than the operators need, and the nodes that
stand for such a tree.
-/

namespace PropContract

open Text

/-! ## Trees -/

/-- A name that is an operand wherever it stands. -/
structure Atom where
  name : String
  isIdentifier : IsIdentifier name
  notReserved : Keyword.ofSpelling? name = none
  ne_async : name ≠ "async"

abbrev BinaryOperator := { k : TokenKind // k.precedence ≠ 0 }

inductive BinaryTree where
  | atom (a : Atom)
  | node (left : BinaryTree) (operator : BinaryOperator) (right : BinaryTree)

namespace TokenKind

/-- How tightly a left operand must bind to stand without parentheses. The power operator takes no power
to its left. -/
def leftFloor (k : TokenKind) : Nat :=
  if k = .punct .asteriskAsterisk then k.precedence + 1 else k.precedence

/-- How tightly a right operand must bind to stand without parentheses. -/
def rightFloor (k : TokenKind) : Nat :=
  if k = .punct .asteriskAsterisk then k.precedence else k.precedence + 1

end TokenKind

/-- A row, between an opening and a closing mark if it needs them. -/
def enclose {α : Type} (needed : Prop) [Decidable needed] (opening closing : α) (xs : List α) : List α :=
  if needed then opening :: (xs ++ [closing]) else xs

namespace BinaryTree

/-- How tightly a tree binds; a name binds more tightly than any operator. -/
def binding : BinaryTree → Nat
  | atom _ => 13
  | node _ operator _ => operator.1.precedence

theorem binding_pos (t : BinaryTree) : 0 < t.binding := by
  cases t with
  | atom a => exact Nat.succ_pos _
  | node left operator right => exact Nat.pos_of_ne_zero operator.2

def chars : BinaryTree → List Char
  | atom a => a.name.toList
  | node left operator right =>
    enclose (left.binding < operator.1.leftFloor) '(' ')' left.chars ++
      ' ' :: (operator.1.operatorText.toList ++
        ' ' :: enclose (right.binding < operator.1.rightFloor) '(' ')' right.chars)

/-- A tree in one line, with blanks around operators and parentheses where they are needed. -/
def text (t : BinaryTree) : String := String.ofList t.chars

/-- How deep parentheses nest in the text of a tree. -/
def nesting : BinaryTree → Nat
  | atom _ => 0
  | node left operator right =>
    max (left.nesting + if left.binding < operator.1.leftFloor then 1 else 0)
      (right.nesting + if right.binding < operator.1.rightFloor then 1 else 0)

/-- Whether a node stands for a tree, going by what is inside any parentheses. -/
inductive Stands (a : Arena) : BinaryTree → Child → Prop
  | atom {x : Atom} {e} (h : a.form? e = some (.identifier x.name)) : Stands a (.atom x) e
  | node {left right : BinaryTree} {operator : BinaryOperator} {e l r}
      (h : a.form? e = some (.binary l operator.1 r)) (hleft : Stands a left l)
      (hright : Stands a right r) : Stands a (.node left operator right) e
  | parenthesized {t : BinaryTree} {e inner} (h : a.form? e = some (.parenthesized inner))
      (hinner : Stands a t inner) : Stands a t e

variable {a b : Arena} {t t' : BinaryTree} {e : Child}

theorem Stands.mono (hg : a.Grows b) (h : Stands a t e) : Stands b t e := by
  have hform {e form} (h : a.form? e = some form) : b.form? e = some form := by
    cases e with
    | none => exact nomatch h
    | some id => exact hg id form h
  induction h with
  | atom h => exact .atom (hform h)
  | node h _ _ ihleft ihright => exact .node (hform h) ihleft ihright
  | parenthesized h _ ih => exact .parenthesized (hform h) ih

/-- A node stands for one tree only. -/
theorem Stands.unique (h : Stands a t e) (h' : Stands a t' e) : t = t' := by
  induction h generalizing t' with
  | @atom x e h =>
      cases h' with
      | @atom y _ h' =>
          obtain ⟨name, _, _, _⟩ := x
          obtain ⟨name', _, _, _⟩ := y
          obtain rfl : name = name' := by simpa using h.symm.trans h'
          rfl
      | node h' => exact nomatch h.symm.trans h'
      | parenthesized h' => exact nomatch h.symm.trans h'
  | @node left right operator e l r h _ _ ihleft ihright =>
      cases h' with
      | atom h' => exact nomatch h.symm.trans h'
      | @node left' right' operator' _ _ _ h' hleft hright =>
          obtain ⟨rfl, hoperator, rfl⟩ : l = _ ∧ operator.1 = operator'.1 ∧ r = _ := by
            simpa using h.symm.trans h'
          rw [ihleft hleft, ihright hright, Subtype.ext hoperator]
      | parenthesized h' => exact nomatch h.symm.trans h'
  | parenthesized h _ ih =>
      cases h' with
      | atom h' => exact nomatch h.symm.trans h'
      | node h' => exact nomatch h.symm.trans h'
      | parenthesized h' hinner =>
          obtain rfl : _ = _ := by simpa using h.symm.trans h'
          exact ih hinner

/-! ## The text of a tree -/

/-- The kinds and values of the tokens of a tree. -/
def tokens : BinaryTree → List (TokenKind × String)
  | atom a => [(.identifier, a.name)]
  | node left operator right =>
    enclose (left.binding < operator.1.leftFloor) (.punct .openParen, "") (.punct .closeParen, "")
        left.tokens ++
      (operator.1, operator.1.operatorValue) ::
        enclose (right.binding < operator.1.rightFloor) (.punct .openParen, "")
          (.punct .closeParen, "") right.tokens

open Token

/-- Whether characters are spelled as a row wherever no further part of a word follows. -/
def SpellsBefore (cs : List Char) (ts : List (TokenKind × String)) : Prop :=
  ∀ {ds us}, SpellsRow ds us → (∀ c ∈ ds.head?, isIdentifierPart c = false) → SpellsRow (cs ++ ds) (ts ++ us)

theorem spellsBefore_enclose (needed : Prop) [Decidable needed] {cs : List Char}
    {ts : List (TokenKind × String)} (h : SpellsBefore cs ts) :
    SpellsBefore (enclose needed '(' ')' cs)
      (enclose needed (.punct .openParen, "") (.punct .closeParen, "") ts) := by
  unfold enclose
  split
  · intro ds us hds _
    have hclose : SpellsRow (')' :: ds) ((.punct .closeParen, "") :: us) :=
      .cons (spells_mark (m := .closeParen) (by decide)) hds
    have hopen : SpellsRow ('(' :: (cs ++ ')' :: ds))
        ((.punct .openParen, "") :: (ts ++ (.punct .closeParen, "") :: us)) :=
      .cons (spells_mark (m := .openParen) (by decide)) (h hclose (by rintro _ ⟨⟩; decide))
    simpa only [List.cons_append, List.append_assoc, List.nil_append] using hopen
  · exact h

theorem spellsBefore_chars (t : BinaryTree) : SpellsBefore t.chars t.tokens := by
  induction t with
  | atom a =>
      intro ds us hds hhead
      have hkind : (Piece.word a.name).kind = .identifier := by rw [Piece.kind, a.notReserved]
      exact .cons (hkind ▸ spells_word a.isIdentifier hhead) hds
  | node left operator right ihleft ihright =>
      intro ds us hds hhead
      have hright := SpellsRow.cons (spells_operator operator.2)
        (SpellsRow.blank ((spellsBefore_enclose (right.binding < operator.1.rightFloor) ihright)
          hds hhead))
      have hleft := (spellsBefore_enclose (left.binding < operator.1.leftFloor) ihleft)
        (SpellsRow.blank hright) (by rintro _ ⟨⟩; decide)
      simpa only [chars, tokens, List.append_assoc, List.cons_append] using hleft

theorem arrowless_enclose {needed : Prop} [Decidable needed] {cs : List Char} (h : Arrowless cs) :
    Arrowless (enclose needed '(' ')' cs) := by
  unfold enclose
  split
  · refine .cons (by decide) (by decide) (h.append (.cons (by decide) (by decide) .nil) ?_)
    rintro _ ⟨⟩
    decide
  · exact h

theorem arrowless_chars (t : BinaryTree) : Arrowless t.chars := by
  induction t with
  | atom a => exact .of_identifier a.isIdentifier
  | node left operator right ihleft ihright =>
      have hblank {cs : List Char} : ∀ d ∈ (' ' :: cs).head?, d ≠ '>' := by
        rintro _ ⟨⟩
        decide
      refine (arrowless_enclose ihleft).append (.cons (by decide) (by decide) ?_) hblank
      exact (Arrowless.operatorText operator.2).append
        (.cons (by decide) (by decide) (arrowless_enclose ihright)) hblank

end BinaryTree

end PropContract
