import PropContract.Proofs.Parse.BinaryTree
import PropContract.Proofs.Parse.File
import PropContract.Proofs.Parse.Module

/-!
# Binary expressions

The text of a tree of binary operators is read back as the same tree. The loop over operators keeps what it
has read as the left operand of the next one.
-/

namespace PropContract

open Text

/-! ## Where a parser stands -/

/-- The kind of the first token of a row. -/
def headKind : List (TokenKind × String) → TokenKind
  | [] => .endOfFile
  | t :: _ => t.1

namespace ParserState

/-- Whether the current token and those behind it are a row. -/
def Shows (s : ParserState) : List (TokenKind × String) → Prop
  | [] => s.kind = .endOfFile
  | t :: ts => t = (s.kind, s.token.value) ∧ s.token.start < s.token.stop ∧
    Token.Row s.source s.token.stop ts

/-- Whether a parser stands before a row in a text without arrows. -/
structure Sees (s : ParserState) (ts : List (TokenKind × String)) : Prop where
  shows : s.Shows ts
  arrowless : ∀ pos, s.source.startsWithAt pos "=>" = false
  length_le : ts.length ≤ s.source.size

variable {s : ParserState} {t : TokenKind × String} {ts : List (TokenKind × String)}

theorem Sees.kind (h : s.Sees ts) : s.kind = headKind ts := by
  cases ts with
  | nil => exact h.shows
  | cons t ts => exact (congrArg Prod.fst h.shows.1).symm

theorem Sees.value (h : s.Sees (t :: ts)) : s.token.value = t.2 :=
  (congrArg Prod.snd h.shows.1).symm

theorem advance_shows (h : Token.Row s.source s.token.stop ts) :
    s.advance.Shows ts ∧ s.token.stop ≤ s.advance.token.start ∧ s.advance.lexer.errors = s.lexer.errors := by
  have hscan (token : Token) (h : Token.scanAt s.source s.token.stop = (token, [])) :
      s.advance.token = token ∧ s.advance.lexer.errors = s.lexer.errors := by
    change s.lexer.scan.token = token ∧ s.lexer.scan.errors = s.lexer.errors
    rw [Lexer.scan, show Token.scanAt s.lexer.source s.lexer.token.stop = _ from h]
    exact ⟨rfl, List.append_nil _⟩
  cases h with
  | nil hrow hkind hle =>
      obtain ⟨htoken, herrors⟩ := hscan _ hrow
      exact ⟨(congrArg Token.kind htoken).trans hkind, htoken ▸ hle, herrors⟩
  | cons hrow hlt hle rest =>
      obtain ⟨htoken, herrors⟩ := hscan _ hrow
      refine ⟨⟨?_, htoken ▸ hlt, htoken ▸ rest⟩, htoken ▸ hle, herrors⟩
      rw [ParserState.kind, htoken]

/-- Reading goes on at the next token. -/
theorem Sees.next (h : s.Sees (t :: ts)) : s.advance.Sees ts ∧ s.GoesTo s.advance := by
  obtain ⟨-, hlt, hrow⟩ := h.shows
  obtain ⟨hshows, hle, herrors⟩ := advance_shows hrow
  exact ⟨⟨hshows, h.arrowless, (Nat.le_succ _).trans h.length_le⟩,
    ⟨rfl, rfl, herrors, rfl, rfl, .refl _, hlt.le.trans hle⟩⟩

theorem Sees.addNode {form : Form} {pos : Nat} {modifiers : Modifiers} (h : s.Sees ts) :
    (s.addNode form pos modifiers).Sees ts :=
  ⟨by cases ts <;> exact h.shows, h.arrowless, h.length_le⟩

/-- Where no arrow stands in the text, no arrow function begins. -/
theorem Sees.arrowFunction? (h : s.Sees ts) : s.arrowFunction? = none := by
  have harrow (pos : Nat) : arrowEnd? s.source pos = none := by
    rw [arrowEnd?]
    simp only [h.arrowless, Bool.false_eq_true, if_false]
    split
    · cases Token.groupEnd s.source pos <;> rfl
    · split <;> rfl
  simp [ParserState.arrowFunction?, harrow]

end ParserState

namespace Parser

variable {s : ParserState} {parse : ExpressionKind → Parser Child} {ts : List (TokenKind × String)}
  {t : BinaryTree} {levels n above : Nat} {stops : TokenKind → Prop}

/-! ## Operands -/

/-- Whether a parser reads a row as a tree, with at most so many levels of expressions inside, where the
row goes on with a token of a kind in `stops`. -/
def ReadsTree (p : Parser Child) (ts : List (TokenKind × String)) (levels : Nat) (t : BinaryTree)
    (stops : TokenKind → Prop) : Prop :=
  ∀ s rest, s.Sees (ts ++ rest) → stops (headKind rest) → s.depth + levels ≤ maxExpressionDepth →
    ∃ x s', p.run s = (x, s') ∧ s'.Sees rest ∧ s.GoesTo s' ∧ t.Stands s'.arena x

/-- The kinds of the tokens that an expression ends before. -/
def Closes (k : TokenKind) : Prop := k = .punct .closeParen ∨ k = .endOfFile

/-- The kinds of the tokens that an operand is followed by. -/
def FollowsOperand (k : TokenKind) : Prop :=
  k.precedence ≠ 0 ∨ Closes k

/-- The kinds of the tokens that an operand begins with. -/
def BeginsOperand (k : TokenKind) : Prop := k = .identifier ∨ k = .punct .openParen

theorem ReadsTree.nested {p : Parser Child} (h : ReadsTree p ts levels t stops) :
    ReadsTree (nested p) ts (levels + 1) t stops := by
  intro s rest hsees hstops hdepth
  have hsees' : { s with depth := s.depth + 1 }.Sees (ts ++ rest) :=
    ⟨by cases hts : ts ++ rest <;> rw [hts] at hsees <;> exact hsees.shows, hsees.arrowless, hsees.length_le⟩
  obtain ⟨x, u, hrun, hu, hgoes, hx⟩ := h { s with depth := s.depth + 1 } rest hsees' hstops (by
    change s.depth + 1 + levels ≤ _
    omega)
  have hlt : ¬ maxExpressionDepth ≤ s.depth := by omega
  refine ⟨x, { u with depth := u.depth - 1 }, ?_, ?_, ?_, hx⟩
  · simp -implicitDefEqProofs only [Parser.nested, Stateful.run_bind, Stateful.run_get, hlt, if_false,
      Stateful.run_modify, hrun, Stateful.run_pure]
  · exact ⟨by cases rest <;> exact hu.shows, hu.arrowless, hu.length_le⟩
  · refine ⟨hgoes.source, hgoes.errors, hgoes.lexicalErrors, ?_, hgoes.quiet, hgoes.grows, hgoes.start⟩
    change u.depth - 1 = s.depth
    rw [hgoes.depth]
    rfl

theorem primary_readsTree_atom (a : Atom) :
    ReadsTree (primary parse) [(.identifier, a.name)] 0 (.atom a) fun _ => True := by
  intro s rest hsees _ _
  have hkind : s.kind = .identifier := hsees.kind
  have hname : s.isName = true := by rw [ParserState.isName, hkind]; rfl
  have hvalue : s.token.value = a.name := hsees.value
  have hasync : s.isAsyncFunction = false := by
    rw [ParserState.isAsyncFunction, ParserState.isWord, hvalue, beq_false_of_ne a.ne_async, Bool.and_false,
      Bool.false_and]
  obtain ⟨hnext, hgoes⟩ := hsees.next
  refine ⟨some s.arena.size, s.advance.addNode (.identifier s.token.value) s.token.start {}, ?_,
    hnext.addNode, hgoes.trans ParserState.goesTo_addNode, .atom ?_⟩
  · simp -implicitDefEqProofs only [primary, identifierName, Stateful.run_bind, Stateful.run_get, hkind,
      hasync, hname, Bool.false_eq_true, if_false, if_true, run_next, run_finishChild]
    rfl
  · rw [← hvalue]
    exact ParserState.form?_addNode

theorem primary_readsTree_parenthesized
    (h : ReadsTree (parse .assignment) ts levels t Closes) :
    ReadsTree (primary parse) ((.punct .openParen, "") :: (ts ++ [(.punct .closeParen, "")])) levels t
      fun _ => True := by
  intro s rest hsees _ hdepth
  rw [List.cons_append, List.append_assoc, List.singleton_append] at hsees
  have hkind : s.kind = .punct .openParen := hsees.kind
  obtain ⟨hinner, hgoes⟩ := hsees.next
  obtain ⟨x, u, hrun, hu, hgoes', hx⟩ := h s.advance _ hinner (.inl rfl) (by rwa [hgoes.depth])
  have hclose : u.kind = .punct .closeParen := hu.kind
  have hcomma : u.kind ≠ .punct .comma := by
    rw [hclose]
    decide
  obtain ⟨hend, hgoes''⟩ := hu.next
  refine ⟨some u.advance.arena.size, u.advance.addNode (.parenthesized x) s.token.start {}, ?_,
    hend.addNode, ((hgoes.trans hgoes').trans hgoes'').trans ParserState.goesTo_addNode,
    .parenthesized ParserState.form?_addNode (hx.mono (hgoes''.grows.trans (Arena.grows_add _)))⟩
  simp -implicitDefEqProofs only [primary, parenthesized, commaExpression, Stateful.run_bind,
    Stateful.run_get, hkind, run_pos, run_next, hrun, run_budget, commaRest, run_accept_ne hcomma,
    Bool.false_eq_true, if_false, Stateful.run_pure, run_expect hclose, run_finishChild]

/-- What follows an operand begins neither a link nor a postfix operator. -/
theorem FollowsOperand.ends {k : TokenKind} (h : FollowsOperand k) :
    k.isPostfixOperator = false ∧ k ≠ .punct .question ∧ k.isAssignment = false ∧
      k ∉ [.punct .dot, .punct .questionDot, .punct .openBracket, .punct .openParen, .plainTemplate,
        .template] := by
  obtain h | rfl | rfl := h
  · have hall : ∀ k ∈ TokenKind.operators, k.isPostfixOperator = false ∧ k ≠ .punct .question ∧
        k.isAssignment = false ∧ k ∉ [.punct .dot, .punct .questionDot, .punct .openBracket,
          .punct .openParen, .plainTemplate, .template] := by
      decide
    exact hall k (TokenKind.mem_operators h)
  · decide
  · decide

theorem linksIn_ends {x : Child} {start : Nat} (hn : 0 < n) (h : FollowsOperand s.kind) :
    (linksIn parse true start n x).run s = (x, s) := by
  obtain ⟨n, rfl⟩ := Nat.exists_eq_succ_of_ne_zero (Nat.ne_of_gt hn)
  obtain ⟨-, -, -, hlinks⟩ := h.ends
  simp only [List.mem_cons, List.not_mem_nil, or_false, not_or] at hlinks
  obtain ⟨hdot, hquestion, hbracket, hparen, hplain, htemplate⟩ := hlinks
  simp -implicitDefEqProofs only [linksIn, Stateful.run_bind, run_kind]
  exact Stateful.run_pure s x

theorem leftHandSide_readsTree (hbegins : ∀ rest, BeginsOperand (headKind (ts ++ rest)))
    (h : ReadsTree (primary parse) ts levels t fun _ => True) :
    ReadsTree (leftHandSide parse) ts levels t FollowsOperand := by
  intro s rest hsees hstops hdepth
  obtain ⟨x, u, hrun, hu, hgoes, hx⟩ := h s rest hsees trivial hdepth
  have hnew : (s.kind == .keyword .newWord) = false := by
    rw [hsees.kind]
    rcases hbegins rest with h | h <;> rw [h] <;> rfl
  refine ⟨x, u, ?_, hu, hgoes, hx⟩
  simp -implicitDefEqProofs only [leftHandSide, newOrPrimary, links, Stateful.run_bind, run_pos, run_kind,
    hnew, Bool.false_eq_true, if_false, hrun, run_budget,
    linksIn_ends (Nat.succ_pos _) (hu.kind ▸ hstops)]

theorem unary_readsTree (hbegins : ∀ rest, BeginsOperand (headKind (ts ++ rest)))
    (h : ReadsTree (parse .leftHandSide) ts levels t FollowsOperand) :
    ReadsTree (unary parse) ts levels t FollowsOperand := by
  intro s rest hsees hstops hdepth
  obtain ⟨x, u, hrun, hu, hgoes, hx⟩ := h s rest hsees hstops hdepth
  have hprefix : s.kind.isPrefixOperator = false := by
    rw [hsees.kind]
    rcases hbegins rest with h | h <;> rw [h] <;> rfl
  have hpostfix : u.token.kind.isPostfixOperator = false := by
    rw [show u.token.kind = headKind rest from hu.kind]
    exact hstops.ends.1
  refine ⟨x, u, ?_, hu, hgoes, hx⟩
  simp -implicitDefEqProofs only [unary, Stateful.run_bind, Stateful.run_get, hprefix,
    Bool.false_eq_true, if_false, hrun, hpostfix, Bool.false_and, Stateful.run_pure]

/-! ## Operators -/

/-- Whether reading the operands and operators that bind tighter than `above` has read a row as a tree at
some point, and goes on with that tree as the left operand. -/
def OpensTree (n above : Nat) (ts : List (TokenKind × String)) (levels : Nat) (t : BinaryTree)
    (stops : TokenKind → Prop) : Prop :=
  ∀ s rest, s.Sees (ts ++ rest) → stops (headKind rest) → s.depth + levels ≤ maxExpressionDepth →
    ∃ m x s', (binary (expressionIn n) above).run s =
        (binaryRest (expressionIn n) above s.token.start m x).run s' ∧
      rest.length < m ∧ s'.Sees rest ∧ s.GoesTo s' ∧ t.Stands s'.arena x

/-- The first operand is the first left operand. -/
theorem ReadsTree.opens (h : ReadsTree (expressionIn n .unary) ts levels t FollowsOperand) :
    OpensTree n above ts levels t FollowsOperand := by
  intro s rest hsees hstops hdepth
  obtain ⟨x, u, hrun, hu, hgoes, hx⟩ := h s rest hsees hstops hdepth
  refine ⟨u.source.size + 1, x, u, ?_, Nat.lt_succ_of_le hu.length_le, hu, hgoes, hx⟩
  simp -implicitDefEqProofs only [binary, Stateful.run_bind, run_pos, hrun, run_budget]

/-- Reading ends before an operator that does not bind tighter. -/
theorem OpensTree.reads (h : OpensTree n above ts levels t stops) :
    ReadsTree (expressionIn (n + 1) (.binary above)) ts levels t
      fun k => stops k ∧ k.precedence ≤ above := by
  intro s rest hsees hstops hdepth
  obtain ⟨m, x, u, hrun, hm, hu, hgoes, hx⟩ := h s rest hsees hstops.1 hdepth
  obtain ⟨m, rfl⟩ := Nat.exists_eq_succ_of_ne_zero (Nat.ne_of_gt (Nat.zero_lt_of_lt hm))
  have hends : u.kind.precedence = 0 ∨ u.kind.precedence ≤ above := .inr (hu.kind ▸ hstops.2)
  refine ⟨x, u, ?_, hu, hgoes, hx⟩
  change (binary (expressionIn n) above).run s = _
  rw [hrun]
  simp -implicitDefEqProofs only [binaryRest, Stateful.run_bind, run_kind, hends, if_true, Stateful.run_pure]

/-- An operator that binds tighter takes what has been read as its left operand. -/
theorem OpensTree.node {ls rs : List (TokenKind × String)} {l r : BinaryTree} {operator : BinaryOperator}
    (habove : above < operator.1.precedence)
    (hleft : OpensTree n above ls levels l (· = operator.1))
    (hright : ReadsTree (expressionIn n (.binary (operator.1.rightFloor - 1))) rs levels r stops) :
    OpensTree n above (ls ++ (operator.1, operator.1.operatorValue) :: rs) levels
      (.node l operator r) stops := by
  intro s rest hsees hstops hdepth
  rw [List.append_assoc, List.cons_append] at hsees
  obtain ⟨m, x, u, hrun, hm, hu, hgoes, hx⟩ := hleft s _ hsees rfl hdepth
  obtain ⟨m, rfl⟩ := Nat.exists_eq_succ_of_ne_zero (Nat.ne_of_gt (Nat.zero_lt_of_lt hm))
  have hkind : u.kind = operator.1 := hu.kind
  obtain ⟨hnext, hgoes'⟩ := hu.next
  obtain ⟨y, v, hrun', hv, hgoes'', hy⟩ := hright u.advance rest hnext hstops (by
    rw [(hgoes.trans hgoes').depth]
    exact hdepth)
  have hgrows := (hgoes'.trans hgoes'').grows
  refine ⟨m, some v.arena.size, v.addNode (.binary x operator.1 y) s.token.start {}, ?_, ?_, hv.addNode,
    ((hgoes.trans hgoes').trans hgoes'').trans ParserState.goesTo_addNode,
    .node ParserState.form?_addNode (hx.mono (hgrows.trans (Arena.grows_add _)))
      (hy.mono (Arena.grows_add _))⟩
  · have hgoesOn : ¬ (operator.1.precedence = 0 ∨ operator.1.precedence ≤ above) := by
      have hne := operator.2
      omega
    have hrightAbove : (if operator.1 = .punct .asteriskAsterisk then operator.1.precedence - 1
        else operator.1.precedence) = operator.1.rightFloor - 1 := by
      unfold TokenKind.rightFloor
      split <;> rfl
    rw [hrun]
    simp -implicitDefEqProofs only [binaryRest, Stateful.run_bind, run_kind, hkind, hgoesOn, if_false,
      run_next, hrightAbove, hrun', run_finishChild]
  · simp only [List.length_append, List.length_cons] at hm
    omega

section

variable {levels' : Nat} {stops' : TokenKind → Prop} (hlevels : levels ≤ levels')
  (hstops : ∀ k, stops' k → stops k)

include hlevels hstops

theorem ReadsTree.mono {p : Parser Child} (h : ReadsTree p ts levels t stops) :
    ReadsTree p ts levels' t stops' :=
  fun s rest hsees hk hdepth => h s rest hsees (hstops _ hk) ((Nat.add_le_add_left hlevels _).trans hdepth)

theorem OpensTree.mono (h : OpensTree n above ts levels t stops) : OpensTree n above ts levels' t stops' :=
  fun s rest hsees hk hdepth => h s rest hsees (hstops _ hk) ((Nat.add_le_add_left hlevels _).trans hdepth)

end

/-! ## Whole trees -/

theorem opens_of_primary (hbegins : ∀ rest, BeginsOperand (headKind (ts ++ rest)))
    (h : ReadsTree (primary (expressionIn n)) ts levels t fun _ => True) :
    OpensTree (n + 2) above ts (levels + 1) t FollowsOperand := by
  have hleft : ReadsTree (expressionIn (n + 1) .leftHandSide) ts levels t FollowsOperand :=
    leftHandSide_readsTree hbegins h
  have hunary : ReadsTree (expressionIn (n + 2) .unary) ts (levels + 1) t FollowsOperand :=
    (unary_readsTree hbegins hleft).nested
  exact hunary.opens

theorem assignment_readsTree (h : OpensTree n 0 ts levels t stops) (hstops : ∀ k, Closes k → stops k) :
    ReadsTree (expressionIn (n + 2) .assignment) ts (levels + 1) t Closes := by
  apply ReadsTree.nested
  intro s rest hsees hcloses hdepth
  have hfollows : FollowsOperand (headKind rest) := .inr hcloses
  have hprecedence : (headKind rest).precedence ≤ 0 := by
    rcases hcloses with h | h <;> rw [h] <;> decide
  obtain ⟨x, u, hrun, hu, hgoes, hx⟩ := h.reads s rest hsees ⟨hstops _ hcloses, hprecedence⟩ hdepth
  obtain ⟨-, hquestion, hassignment, -⟩ := hu.kind ▸ hfollows.ends
  refine ⟨x, u, ?_, hu, hgoes, hx⟩
  simp -implicitDefEqProofs only [assignment, conditional, Stateful.run_bind, Stateful.run_get,
    hsees.arrowFunction?, run_pos, hrun, run_accept_ne hquestion, run_kind, hassignment,
    Bool.false_eq_true, if_false, Stateful.run_pure]

/-- The kinds of tokens before which a tree that binds so tightly can stand without parentheses. -/
def Leaves (binding : Nat) (k : TokenKind) : Prop := FollowsOperand k ∧ k.leftFloor ≤ binding

theorem leaves_of_closes {k : TokenKind} (h : Closes k) (binding : Nat) : Leaves binding k := by
  obtain rfl | rfl := h
  · exact ⟨.inr (.inl rfl), Nat.zero_le _⟩
  · exact ⟨.inr (.inr rfl), Nat.zero_le _⟩

theorem opens_operand {floor : Nat}
    (h : ∀ n above, above < t.binding → 4 * t.tokens.length ≤ n →
      OpensTree n above t.tokens (2 * t.nesting + 1) t (Leaves t.binding))
    (habove : above < floor)
    (hn : 4 * (enclose (t.binding < floor) (.punct .openParen, "") (.punct .closeParen, "")
      t.tokens).length ≤ n) :
    OpensTree n above
      (enclose (t.binding < floor) (.punct .openParen, "") (.punct .closeParen, "") t.tokens)
      (2 * (t.nesting + if t.binding < floor then 1 else 0) + 1) t (Leaves floor) := by
  unfold enclose at hn ⊢
  split at hn
  · rename_i hlt
    simp only [List.length_cons, List.length_append, List.length_nil] at hn
    obtain ⟨n, rfl⟩ : ∃ m, n = m + 4 := ⟨n - 4, by omega⟩
    have hinner := assignment_readsTree (h n 0 t.binding_pos (by omega)) fun k hk => leaves_of_closes hk _
    rw [if_pos hlt, if_pos hlt]
    exact (opens_of_primary (fun _ => .inr rfl) (primary_readsTree_parenthesized hinner)).mono
      (by omega) fun k hk => hk.1
  · rename_i hlt
    rw [if_neg hlt, if_neg hlt]
    exact (h n above (by omega) hn).mono (by omega) fun k hk => ⟨hk.1, hk.2.trans (Nat.le_of_not_lt hlt)⟩

/-- What a left operand stands before can stand behind a right operand. -/
theorem leaves_rightFloor {k : TokenKind} {operator : BinaryOperator}
    (h : Leaves operator.1.precedence k) :
    Leaves operator.1.rightFloor k ∧ k.precedence ≤ operator.1.rightFloor - 1 := by
  obtain ⟨hfollows, hfloor⟩ := h
  have hpower : k.precedence = 12 → k = .punct .asteriskAsterisk := by
    intro hk
    have hall : ∀ k ∈ TokenKind.operators, k.precedence = 12 → k = .punct .asteriskAsterisk := by decide
    exact hall k (TokenKind.mem_operators (by omega)) hk
  have hle : k.precedence ≤ k.leftFloor := by
    unfold TokenKind.leftFloor
    split <;> omega
  have hne := operator.2
  unfold Leaves TokenKind.rightFloor
  split
  · rename_i hoperator
    have hprecedence : operator.1.precedence = 12 := by rw [hoperator]; rfl
    have hk : k.precedence ≠ 12 := by
      intro hk
      have hleft : k.leftFloor = 13 := by rw [hpower hk]; rfl
      omega
    exact ⟨⟨hfollows, hfloor⟩, by omega⟩
  · exact ⟨⟨hfollows, hfloor.trans (Nat.le_succ _)⟩, hle.trans hfloor⟩

theorem above_lt_leftFloor {operator : BinaryOperator} (h : above < operator.1.precedence) :
    above < operator.1.leftFloor := by
  unfold TokenKind.leftFloor
  split <;> omega

theorem rightFloor_pos (operator : BinaryOperator) : 0 < operator.1.rightFloor := by
  have hne := operator.2
  unfold TokenKind.rightFloor
  split <;> omega

/-- The tokens of a tree are read as the tree, before any operator that the tree can be a left operand
of. -/
theorem opens_tokens (t : BinaryTree) (n above : Nat) (habove : above < t.binding)
    (hn : 4 * t.tokens.length ≤ n) :
    OpensTree n above t.tokens (2 * t.nesting + 1) t (Leaves t.binding) := by
  induction t generalizing n above with
  | atom a =>
      obtain ⟨n, rfl⟩ : ∃ m, n = m + 2 := ⟨n - 2, by simp [BinaryTree.tokens] at hn; omega⟩
      exact (opens_of_primary (fun _ => .inl rfl) (primary_readsTree_atom a)).mono (Nat.le_refl _)
        fun k hk => hk.1
  | node left operator right ihleft ihright =>
      simp only [BinaryTree.tokens, List.length_append, List.length_cons] at hn
      obtain ⟨n, rfl⟩ : ∃ m, n = m + 1 := ⟨n - 1, by omega⟩
      have hbelow := Nat.sub_lt (rightFloor_pos operator) Nat.one_pos
      have hleft := opens_operand (n := n + 1) ihleft (above_lt_leftFloor habove) (by omega)
      have hright := (opens_operand (n := n) ihright hbelow (by omega)).reads
      refine .node habove (hleft.mono ?_ ?_) (hright.mono ?_ fun k hk => leaves_rightFloor hk)
      · rw [BinaryTree.nesting]
        omega
      · rintro _ rfl
        exact ⟨.inl operator.2, Nat.le_refl _⟩
      · rw [BinaryTree.nesting]
        omega

/-! ## Files -/

theorem tokens_begin (t : BinaryTree) :
    ∃ k v ts, t.tokens = (k, v) :: ts ∧ BeginsOperand k ∧ v ≠ "async" := by
  induction t with
  | atom a => exact ⟨_, _, _, rfl, .inl rfl, a.ne_async⟩
  | node left operator right ihleft _ =>
      rw [BinaryTree.tokens, enclose]
      split
      · exact ⟨_, _, _, rfl, .inr rfl, by decide⟩
      · obtain ⟨k, v, ts, htokens, hk, hv⟩ := ihleft
        exact ⟨k, v, _, by rw [htokens]; rfl, hk, hv⟩

/-- Whether a node is a statement of an expression that stands for a tree. -/
def IsTreeStatement (t : BinaryTree) (a : Arena) (id : NodeId) : Prop :=
  ∃ e, a.form? (some id) = some (.expressionStatement e) ∧ t.Stands a e

theorem treeStatement_reads (hsees : s.Sees t.tokens) (hdepth : s.depth = 0)
    (hnesting : 2 * (t.nesting + 1) ≤ maxExpressionDepth) :
    ∃ id s', statement.run s = (some id, s') ∧ s'.Sees [] ∧ s.GoesTo s' ∧ IsTreeStatement t s'.arena id := by
  obtain ⟨k, v, ts, htokens, hbegins, hasync⟩ := tokens_begin t
  have hlength := hsees.length_le
  obtain ⟨n, hn, hle⟩ : ∃ n, 6 * (s.source.size + 1) = n + 2 ∧ 4 * t.tokens.length ≤ n :=
    ⟨6 * (s.source.size + 1) - 2, by omega, by omega⟩
  obtain ⟨x, u, hrun, hu, hgoes, hx⟩ :=
    assignment_readsTree (opens_tokens t n 0 t.binding_pos hle) (fun k hk => leaves_of_closes hk _) s []
      (by rwa [List.append_nil]) (.inr rfl) (by omega)
  rw [← hn, ← run_expression] at hrun
  have hend : u.kind = .endOfFile := hu.kind
  have hcomma : u.kind ≠ .punct .comma := by rw [hend]; decide
  have hsemicolon : u.kind ≠ .punct .semicolon := by rw [hend]; decide
  have hmayEnd : u.mayEndStatement = true := by
    rw [ParserState.mayEndStatement, hend]
    simp
  have hexpression : expressionStatement.run s =
      (some u.arena.size, u.addNode (.expressionStatement x) s.token.start {}) := by
    simp -implicitDefEqProofs only [expressionStatement, commaExpression, Stateful.run_bind, run_pos, hrun,
      run_budget, commaRest, run_accept_ne hcomma, Bool.false_eq_true, if_false, Stateful.run_pure,
      expectSemicolon, run_accept_ne hsemicolon, Stateful.run_get, hmayEnd, if_true, run_finishChild]
  rw [htokens] at hsees
  have hkind : s.kind = k := hsees.kind
  have hvalue : s.token.value = v := hsees.value
  have hnot : s.isAsyncFunction = false := by
    rw [ParserState.isAsyncFunction, ParserState.isWord, hvalue, beq_false_of_ne hasync, Bool.and_false,
      Bool.false_and]
  refine ⟨u.arena.size, u.addNode (.expressionStatement x) s.token.start {}, ?_, hu.addNode,
    hgoes.trans ParserState.goesTo_addNode, x, ParserState.form?_addNode, hx.mono (Arena.grows_add _)⟩
  rw [← hexpression]
  rcases hbegins with rfl | rfl <;>
    simp -implicitDefEqProofs only [statement, Stateful.run_bind, Stateful.run_get, hkind, hnot,
      Bool.false_eq_true, if_false]

/-- A file that is one tree is read up to its end. -/
theorem fileStatements_readsTree (hsees : (ParserState.initial t.text).advance.Sees t.tokens)
    (herrors : (ParserState.initial t.text).advance.lexer.errors = [])
    (hnesting : 2 * (t.nesting + 1) ≤ maxExpressionDepth) :
    ∃ id s', fileStatements.run (ParserState.initial t.text) = ([id], s') ∧ s'.errors = [] ∧
      s'.lexer.errors = [] ∧ IsTreeStatement t s'.arena id := by
  generalize hs : (ParserState.initial t.text).advance = s at hsees herrors
  have hdepth : s.depth = 0 := by rw [← hs]; rfl
  have hquiet : s.quiet = false := by rw [← hs]; rfl
  have hclean : s.errors = [] := by rw [← hs]; rfl
  obtain ⟨id, u, hrun, hu, hgoes, hid⟩ := treeStatement_reads hsees hdepth hnesting
  obtain ⟨k, v, ts, htokens, hbegins, -⟩ := tokens_begin t
  have hlength := hsees.length_le
  have hkind : s.kind = k := by rw [hsees.kind, htokens]; rfl
  have hbrace : (s.kind == .punct .closeBrace) = false := by
    rw [hkind]
    rcases hbegins with rfl | rfl <;> rfl
  have hfile : (s.kind == .endOfFile) = false := by
    rw [hkind]
    rcases hbegins with rfl | rfl <;> rfl
  have hcount : ¬ s.errors.length < u.errors.length := by
    rw [hgoes.errors]
    exact Nat.lt_irrefl _
  have hend' : ({ u with quiet := false, depth := 0 } : ParserState).kind = .endOfFile := hu.kind
  have hstatement : fileStatement.run s = (some id, { u with quiet := false, depth := 0 }) := by
    simp -implicitDefEqProofs only [fileStatement, Stateful.run_bind, Stateful.run_get, hbrace,
      Bool.false_eq_true, if_false, hrun, hcount, Stateful.run_pure, Stateful.run_modify, hend',
      bne_self_eq_false, Bool.and_false]
  obtain ⟨n, hn⟩ : ∃ n, s.source.size + 1 = n + 2 := ⟨s.source.size - 1, by
    rw [htokens] at hlength
    simp only [List.length_cons] at hlength
    omega⟩
  refine ⟨id, { u with quiet := false, depth := 0 }, ?_, hgoes.errors.trans hclean,
    hgoes.lexicalErrors.trans herrors, hid⟩
  simp -implicitDefEqProofs only [fileStatements, Stateful.run_bind, run_next, hs, run_budget, hn,
    fileStatementsIn, run_kind, hfile, Bool.false_eq_true, if_false, hstatement, hend',
    beq_self_eq_true, if_true, Stateful.run_pure]
  rfl

end Parser

namespace Module

/-- The text of a tree is parsed without errors as one statement that stands for the tree. -/
theorem parse_stands (fileName : String) (t : BinaryTree)
    (hnesting : 2 * (t.nesting + 1) ≤ maxExpressionDepth) :
    (Module.parse fileName t.text).errors = [] ∧
      ∃ id, (Module.parse fileName t.text).statements = [id] ∧
        Parser.IsTreeStatement t (Module.parse fileName t.text).arena id := by
  have hrest : (Source.ofString t.text).Rest 0 t.chars := Source.rest_ofString t.chars
  have hspelled : Token.SpellsRow t.chars t.tokens := by
    simpa only [List.append_nil] using t.spellsBefore_chars .nil (by simp)
  have hmark : (t.text.toList.head? == some '\uFEFF') = false := by
    rw [BinaryTree.text, String.toList_ofList]
    apply beq_false_of_ne
    intro hhead
    exact absurd (t.arrowless_chars.ascii _ (List.mem_of_head? hhead)) (by decide)
  have hinitial : ParserState.initial t.text =
      { lexer := ⟨.ofString t.text, { start := 0, stop := 0, kind := .unknown }, []⟩ } := by
    rw [ParserState.initial, Lexer.ofString, hmark]
    rfl
  have hrow : Token.Row (ParserState.initial t.text).source (ParserState.initial t.text).token.stop
      t.tokens := by
    rw [hinitial]
    exact hspelled.row hrest
  obtain ⟨hshows, -, herrors⟩ := ParserState.advance_shows hrow
  have hlength : t.tokens.length ≤ (Source.ofString t.text).size := by
    rw [hrest.size_eq, Nat.zero_add]
    exact hspelled.length_le.trans (length_le_width _)
  obtain ⟨id, s, hrun, hclean, hlexical, e, hid, he⟩ := Parser.fileStatements_readsTree
    ⟨hshows, t.arrowless_chars.startsWithAt hrest, hlength⟩
    (herrors.trans (by rw [hinitial])) hnesting
  rw [Module.parse_eq fileName t.text hrun]
  refine ⟨?_, id, ?_, e, Arena.grows_add _ id _ hid, he.mono (Arena.grows_add _)⟩
  · simp only [hclean, hlexical, List.reverse_nil, List.map_nil, List.append_nil, List.mergeSort_nil]
  · rw [Module.statements, Arena.statements, Arena.form?_add, if_pos rfl]

/-- The text of a tree is parsed without errors as one expression statement, and the expression stands for
that tree and no other. Up to 127 parentheses may nest. -/
theorem parse_binaryTree (fileName : String) (t : BinaryTree)
    (hnesting : 2 * (t.nesting + 1) ≤ maxExpressionDepth) :
    let m := Module.parse fileName t.text
    m.errors = [] ∧ ∃ id e, m.statements = [id] ∧
      m.arena.form? (some id) = some (.expressionStatement e) ∧
      ∀ t' : BinaryTree, t'.Stands m.arena e ↔ t' = t := by
  have hstands := parse_stands fileName t hnesting
  generalize Module.parse fileName t.text = m at hstands ⊢
  obtain ⟨herrors, id, hid, e, hform, he⟩ := hstands
  exact ⟨herrors, id, e, hid, hform, fun t' => ⟨fun h => h.unique he, fun heq => heq ▸ he⟩⟩

/-- A tree of all that parentheses depend on: weaker and equal operators on both sides. -/
def mixedTree : BinaryTree :=
  let a : BinaryTree := .atom ⟨"a", by decide, by decide +kernel, by decide⟩
  let b : BinaryTree := .atom ⟨"$b1", by decide, by decide +kernel, by decide⟩
  let power : BinaryOperator := ⟨.punct .asteriskAsterisk, by decide⟩
  let minus : BinaryOperator := ⟨.punct .minus, by decide⟩
  let isIn : BinaryOperator := ⟨.keyword .inWord, by decide⟩
  let slash : BinaryOperator := ⟨.punct .slash, by decide⟩
  .node (.node (.node a power b) power (.node a power (.node a slash b))) isIn
    (.node (.node a minus b) minus (.node (.node b minus a) minus (.node b isIn a)))

theorem parse_mixedTree :
    mixedTree.text = "(a ** $b1) ** a ** (a / $b1) in a - $b1 - ($b1 - a - ($b1 in a))" ∧
      2 * (mixedTree.nesting + 1) ≤ maxExpressionDepth ∧
      (Module.parse "a.js" mixedTree.text).errors = [] := by
  have hnesting : 2 * (mixedTree.nesting + 1) ≤ maxExpressionDepth := by decide
  exact ⟨by decide +kernel, hnesting, (parse_binaryTree "a.js" mixedTree hnesting).1⟩

end Module

end PropContract
