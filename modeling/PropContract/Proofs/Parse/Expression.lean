import PropContract.Proofs.Parse.Written

/-!
# Reading written expressions

The parser reads the pieces of an expression as nodes that stand for it, and nothing more.
-/

namespace PropContract

open Text

namespace Parser

variable {q : Quote} {s s' : ParserState} {ts rest : List Piece} {α β : Type}

/-! ## Single steps -/

theorem run_kind : Parser.kind.run s = (s.kind, s) := rfl

theorem run_pos : Parser.pos.run s = (s.token.start, s) := rfl

theorem run_budget : Parser.budget.run s = (s.source.size + 1, s) := rfl

theorem run_next : Parser.next.run s = (⟨⟩, s.advance) := rfl

theorem run_finishChild (form : Form) (pos : Nat) (modifiers : Modifiers) :
    (finishChild form pos modifiers).run s = (some s.arena.size, s.addNode form pos modifiers) := rfl

theorem run_tokenNode (form : String → Form) :
    (tokenNode form).run s =
      (some s.arena.size, s.advance.addNode (form s.token.value) s.token.start {}) := rfl

theorem run_accept_eq {k : TokenKind} (h : s.kind = k) : (accept k).run s = (true, s.advance) := by
  simp -implicitDefEqProofs only [accept, Stateful.run_bind, run_kind, h, beq_self_eq_true, if_true, run_next,
    Stateful.run_pure]

theorem run_accept_ne {k : TokenKind} (h : s.kind ≠ k) : (accept k).run s = (false, s) := by
  simp -implicitDefEqProofs only [accept, Stateful.run_bind, run_kind, beq_iff_eq, h, if_false, Stateful.run_pure]

theorem run_expect {k : TokenKind} (h : s.kind = k) : (expect k).run s = (⟨⟩, s.advance) := by
  simp -implicitDefEqProofs only [expect, Stateful.run_bind, run_accept_eq h, if_true, Stateful.run_pure]

/-! ## Readings -/

/-- The pieces that end an expression. -/
def closers : List Piece :=
  [.mark .closeBrace, .mark .closeParen, .mark .closeBracket, .mark .comma, .mark .semicolon]

/-- Whether a parser reads the pieces `ts` before one of `stops`, with at most so many levels of
expressions inside, and gives something that holds in the tree. -/
def ReadsAs (q : Quote) (p : Parser α) (ts : List Piece) (levels : Nat) (stops : List Piece)
    (holds : Arena → α → Prop) : Prop :=
  ∀ s r rest, s.At q (ts ++ r :: rest) → r ∈ stops → s.depth + levels ≤ maxExpressionDepth →
    ∃ x s', p.run s = (x, s') ∧ s'.At q (r :: rest) ∧ s.GoesTo s' ∧ holds s'.arena x

/-- Whether a child is a node with a property. -/
def IsNode (holds : Arena → NodeId → Prop) (a : Arena) (c : Child) : Prop :=
  ∃ id, c = some id ∧ holds a id

theorem exists_nodes {a : Arena} {holds : β → Arena → NodeId → Prop} {xs : List β} {ys : List Child}
    (h : List.Forall₂ (fun x y => IsNode (holds x) a y) xs ys) :
    ∃ ids : List NodeId, ys = ids.map some ∧ List.Forall₂ (fun x i => holds x a i) xs ids := by
  induction h with
  | nil => exact ⟨[], rfl, .nil⟩
  | cons hx _ ih =>
      obtain ⟨x, rfl, hx⟩ := hx
      obtain ⟨ids, rfl, hids⟩ := ih
      exact ⟨x :: ids, rfl, .cons hx hids⟩

theorem tokenNode_reads (form : String → Form) {p : Piece} {r : List Piece} (h : s.At q (p :: r)) :
    ∃ id s', (tokenNode form).run s = (some id, s') ∧ s'.At q r ∧ s.GoesTo s' ∧
      s'.arena.form? (some id) = some (form p.value) := by
  obtain ⟨hat, hgoes, -⟩ := h.next
  refine ⟨_, _, run_tokenNode form, hat.addNode, hgoes.trans ParserState.goesTo_addNode, ?_⟩
  rw [h.value]
  exact ParserState.form?_addNode

theorem identifierName_reads {text : String} (h : s.At q (.word text :: rest)) :
    ∃ id s', identifierName.run s = (some id, s') ∧ s'.At q rest ∧ s.GoesTo s' ∧
      s'.arena.form? (some id) = some (.identifier text) := by
  have hname : s.isName = true := by
    rw [ParserState.isName, h.kind, Piece.kind]
    split <;> rfl
  obtain ⟨hat, hgoes, -⟩ := h.next
  refine ⟨s.arena.size, s.advance.addNode (.identifier s.token.value) s.token.start {}, ?_,
    hat.addNode, hgoes.trans ParserState.goesTo_addNode, ?_⟩
  · simp -implicitDefEqProofs only [identifierName, Stateful.run_bind, Stateful.run_get, hname, if_true, run_next,
      run_finishChild]
    rfl
  · rw [h.value]
    exact ParserState.form?_addNode

/-! ## Levels -/

variable {holds : Arena → α → Prop} {levels : Nat} {stops : List Piece}

theorem nested_reads {p : Parser Child} {holds : Arena → Child → Prop}
    (h : ReadsAs q p ts levels stops holds) : ReadsAs q (nested p) ts (levels + 1) stops holds := by
  intro s r rest hat hr hdepth
  have hat' : { s with depth := s.depth + 1 }.At q (ts ++ r :: rest) := by
    cases hts : ts ++ r :: rest <;> rw [hts] at hat <;> exact hat
  obtain ⟨x, t, hrun, ht, hgoes, hx⟩ := h { s with depth := s.depth + 1 } r rest hat' hr (by
    change s.depth + 1 + levels ≤ _
    omega)
  have hlt : ¬ maxExpressionDepth ≤ s.depth := by omega
  refine ⟨x, { t with depth := t.depth - 1 }, ?_, ht, ?_, hx⟩
  · simp -implicitDefEqProofs only [nested, Stateful.run_bind, Stateful.run_get, hlt, if_false, Stateful.run_modify,
      hrun, Stateful.run_pure]
  · refine ⟨hgoes.source, hgoes.errors, hgoes.lexicalErrors, ?_, hgoes.quiet, hgoes.grows,
      hgoes.start⟩
    change t.depth - 1 = s.depth
    rw [hgoes.depth]
    rfl

theorem stop_kind {r : Piece} (hr : r ∈ .equals :: closers) :
    r.kind.isPostfixOperator = false ∧ r.kind.precedence = 0 ∧ r.kind ≠ .punct .question := by
  simp only [closers, List.mem_cons, List.not_mem_nil, or_false] at hr
  rcases hr with rfl | rfl | rfl | rfl | rfl | rfl <;> exact ⟨rfl, rfl, by decide⟩

theorem isAssignment_closers {r : Piece} (hr : r ∈ closers) : r.kind.isAssignment = false := by
  simp only [closers, List.mem_cons, List.not_mem_nil, or_false] at hr
  rcases hr with rfl | rfl | rfl | rfl | rfl <;> rfl

/-- The kinds of tokens that begin an expression or a property. -/
def BeginsItem (k : TokenKind) : Prop :=
  k = .identifier ∨ k = .string ∨ k = .punct .openBrace ∨ k = .punct .openBracket

theorem begins_kind {p : Piece} (h : Written.Begins (p :: ts)) : BeginsItem p.kind := by
  cases p with
  | word text =>
      cases ts with
      | nil => exact h.elim
      | cons r ts =>
          cases r with
          | mark m =>
              left
              simp only [Piece.kind, h.1]
          | _ => exact h.elim
  | string text => exact .inr (.inl rfl)
  | mark m =>
      obtain rfl | rfl := h
      · exact .inr (.inr (.inl rfl))
      · exact .inr (.inr (.inr rfl))
  | equals => exact h.elim

theorem isPrefixOperator_begins (hat : s.At q ts) (h : Written.Begins ts) :
    s.kind.isPrefixOperator = false := by
  cases ts with
  | nil => exact h.elim
  | cons p ts =>
      rw [hat.kind]
      rcases begins_kind h with hp | hp | hp | hp <;> rw [hp] <;> rfl

theorem arrowFunction_begins (hat : s.At q ts) (h : Written.Begins ts) :
    s.arrowFunction? = none := by
  cases ts with
  | nil => exact h.elim
  | cons p ts =>
      have hkind := hat.kind
      cases p with
      | word text =>
          cases ts with
          | nil => exact h.elim
          | cons r ts =>
              cases r with
              | mark m => exact hat.arrowFunction_word h.2
              | _ => exact h.elim
      | string text => simp [ParserState.arrowFunction?, ParserState.isWord, hkind, Piece.kind]
      | mark m =>
          obtain rfl | rfl := h <;>
            simp [ParserState.arrowFunction?, ParserState.isWord, hkind, Piece.kind]
      | equals => exact h.elim

section

variable {n : Nat} {holds : Arena → Child → Prop} (hstops : ∀ r ∈ stops, r ∈ .equals :: closers)
  (hbegins : ∀ r ∈ stops, ∀ rest, Written.Begins (ts ++ r :: rest))

include hstops hbegins

theorem unary_reads
    (h : ReadsAs q (expressionIn n .leftHandSide) ts levels stops holds) :
    ReadsAs q (expressionIn (n + 1) .unary) ts (levels + 1) stops holds := by
  apply nested_reads
  intro s r rest hat hr hdepth
  obtain ⟨x, t, hrun, ht, hgoes, hx⟩ := h s r rest hat hr hdepth
  have hpostfix : t.token.kind.isPostfixOperator = false := by
    rw [show t.token.kind = r.kind from ht.kind]
    exact (stop_kind (hstops r hr)).1
  refine ⟨x, t, ?_, ht, hgoes, hx⟩
  simp -implicitDefEqProofs only [unary, Stateful.run_bind, Stateful.run_get,
    isPrefixOperator_begins hat (hbegins r hr rest), Bool.false_eq_true, if_false, hrun, hpostfix,
    Bool.false_and, Stateful.run_pure]

theorem binary_reads
    (h : ReadsAs q (expressionIn n .leftHandSide) ts levels stops holds) :
    ReadsAs q (expressionIn (n + 2) (.binary 0)) ts (levels + 1) stops holds := by
  intro s r rest hat hr hdepth
  obtain ⟨x, t, hrun, ht, hgoes, hx⟩ := unary_reads hstops hbegins h s r rest hat hr hdepth
  have hprecedence : t.kind.precedence = 0 := by
    rw [ht.kind]
    exact (stop_kind (hstops r hr)).2.1
  refine ⟨x, t, ?_, ht, hgoes, hx⟩
  change (binary (expressionIn (n + 1)) 0).run s = _
  simp -implicitDefEqProofs only [binary, Stateful.run_bind, run_pos, hrun, run_budget, binaryRest, run_kind,
    hprecedence, true_or, if_true, Stateful.run_pure]

theorem conditional_reads
    (h : ReadsAs q (expressionIn n .leftHandSide) ts levels stops holds) :
    ReadsAs q (conditional (expressionIn (n + 2))) ts (levels + 1) stops holds := by
  intro s r rest hat hr hdepth
  obtain ⟨x, t, hrun, ht, hgoes, hx⟩ := binary_reads hstops hbegins h s r rest hat hr hdepth
  have hquestion : t.kind ≠ .punct .question := by
    rw [ht.kind]
    exact (stop_kind (hstops r hr)).2.2
  refine ⟨x, t, ?_, ht, hgoes, hx⟩
  simp -implicitDefEqProofs only [conditional, Stateful.run_bind, run_pos, hrun, run_accept_ne hquestion,
    Bool.false_eq_true, if_false, Stateful.run_pure]

end

/-- An expression that begins no function and goes on with no operator is its left-hand side. -/
theorem assignment_reads {n : Nat} {holds : Arena → Child → Prop}
    (hbegins : ∀ r ∈ closers, ∀ rest, Written.Begins (ts ++ r :: rest))
    (h : ReadsAs q (expressionIn n .leftHandSide) ts levels closers holds) :
    ReadsAs q (expressionIn (n + 3) .assignment) ts (levels + 2) closers holds := by
  apply nested_reads
  intro s r rest hat hr hdepth
  obtain ⟨x, t, hrun, ht, hgoes, hx⟩ :=
    conditional_reads (fun _ => List.mem_cons_of_mem _) hbegins h s r rest hat hr hdepth
  have hassignment : t.kind.isAssignment = false := by
    rw [ht.kind]
    exact isAssignment_closers hr
  refine ⟨x, t, ?_, ht, hgoes, hx⟩
  simp -implicitDefEqProofs only [assignment, Stateful.run_bind, Stateful.run_get,
    arrowFunction_begins hat (hbegins r hr rest), run_pos, hrun, run_kind, hassignment,
    Bool.false_eq_true, if_false, Stateful.run_pure]

/-! ## Lists -/

section

variable {item : Parser α} {pieces : β → List Piece} {holds : β → Arena → α → Prop} {close : Punct}

theorem run_atListEnd (hclose : s.kind = .punct close) : (atListEnd close).run s = (true, s) := by
  simp -implicitDefEqProofs only [atListEnd, Stateful.run_bind, run_kind, hclose, beq_self_eq_true, Bool.true_or,
    Stateful.run_pure]

theorem run_atListEnd_item (hclose : close ∈ [.closeBrace, .closeParen, .closeBracket])
    (h : BeginsItem s.kind) : (atListEnd close).run s = (false, s) := by
  have hnot : (s.kind == .punct close || s.kind == .endOfFile) = false := by
    simp only [List.mem_cons, List.not_mem_nil, or_false] at hclose
    rcases h with h | h | h | h <;> rw [h] <;> rcases hclose with rfl | rfl | rfl <;> rfl
  simp -implicitDefEqProofs only [atListEnd, Stateful.run_bind, run_kind, hnot, Stateful.run_pure]

theorem ne_comma_of_beginsItem {k : TokenKind} (h : BeginsItem k) : k ≠ .punct .comma := by
  rcases h with rfl | rfl | rfl | rfl <;> decide

/-- What is known of the items of a list that is to be read. -/
structure Items (q : Quote) (item : Parser α) (pieces : β → List Piece) (levels : Nat)
    (holds : β → Arena → α → Prop) (xs : List β) : Prop where
  reads : ∀ x ∈ xs, ReadsAs q item (pieces x) levels closers (holds x)
  begins : ∀ x ∈ xs, ∃ p ps, pieces x = p :: ps ∧ BeginsItem p.kind
  mono : ∀ x a b y, a.Grows b → holds x a y → holds x b y

variable {xs : List β} {n : Nat}

theorem Items.tail {x : β} (h : Items q item pieces levels holds (x :: xs)) :
    Items q item pieces levels holds xs :=
  ⟨fun y hy => h.reads y (List.mem_cons_of_mem _ hy),
    fun y hy => h.begins y (List.mem_cons_of_mem _ hy), h.mono⟩

/-- The first item is read up to the comma or the end behind it. -/
theorem Items.first {x : β} (hclose : close ∈ [.closeBrace, .closeParen, .closeBracket])
    (h : Items q item pieces levels holds (x :: xs))
    (hat : s.At q (Piece.separated ((x :: xs).map pieces) ++ .mark close :: rest))
    (hdepth : s.depth + levels ≤ maxExpressionDepth) :
    BeginsItem s.kind ∧ ∃ y t, item.run s = (y, t) ∧ s.GoesTo t ∧ holds x t.arena y ∧
      (xs = [] ∧ t.At q (.mark close :: rest) ∧ t.kind ≠ .punct .comma ∨
        t.kind = .punct .comma ∧
          t.advance.At q (Piece.separated (xs.map pieces) ++ .mark close :: rest) ∧
          t.GoesTo t.advance) := by
  obtain ⟨p, ps, hp, hbegins⟩ := h.begins x List.mem_cons_self
  simp only [List.mem_cons, List.not_mem_nil, or_false] at hclose
  cases xs with
  | nil =>
      have hrow : s.At q (pieces x ++ .mark close :: rest) := hat
      have hstop : .mark close ∈ closers := by
        rcases hclose with rfl | rfl | rfl <;> decide
      have hcomma : (Piece.mark close).kind ≠ .punct .comma := by
        rcases hclose with rfl | rfl | rfl <;> decide
      obtain ⟨y, t, hrun, ht, hgoes, hy⟩ := h.reads x List.mem_cons_self s _ rest hrow hstop hdepth
      rw [hp] at hrow
      exact ⟨hrow.kind ▸ hbegins, y, t, hrun, hgoes, hy, .inl ⟨rfl, ht, ht.kind ▸ hcomma⟩⟩
  | cons z zs =>
      have hrow : s.At q (pieces x ++ .mark .comma ::
          (Piece.separated ((z :: zs).map pieces) ++ .mark close :: rest)) := by
        simpa only [List.map_cons, Piece.separated, List.append_assoc, List.cons_append] using hat
      obtain ⟨y, t, hrun, ht, hgoes, hy⟩ :=
        h.reads x List.mem_cons_self s _ _ hrow (by decide) hdepth
      obtain ⟨hnext, hgoes', -⟩ := ht.next
      rw [hp] at hrow
      exact ⟨hrow.kind ▸ hbegins, y, t, hrun, hgoes, hy, .inr ⟨ht.kind, hnext, hgoes'⟩⟩

theorem commaListIn_reads (hclose : close ∈ [.closeBrace, .closeParen, .closeBracket])
    (h : Items q item pieces levels holds xs) (hn : xs.length < n)
    (hat : s.At q (Piece.separated (xs.map pieces) ++ .mark close :: rest))
    (hdepth : s.depth + levels ≤ maxExpressionDepth) :
    ∃ ys s', (commaListIn close item n).run s = (ys, s') ∧ s'.At q (.mark close :: rest) ∧
      s.GoesTo s' ∧ List.Forall₂ (fun x y => holds x s'.arena y) xs ys := by
  induction xs generalizing n s with
  | nil =>
      obtain ⟨n, rfl⟩ := Nat.exists_eq_succ_of_ne_zero (Nat.ne_of_gt hn)
      have hkind : s.kind = .punct close := ParserState.At.kind hat
      refine ⟨[], s, ?_, hat, .refl s, .nil⟩
      simp -implicitDefEqProofs only [commaListIn, Stateful.run_bind, run_atListEnd hkind, if_true, Stateful.run_pure]
  | cons x xs ih =>
      obtain ⟨n, rfl⟩ := Nat.exists_eq_succ_of_ne_zero (Nat.ne_of_gt (Nat.zero_lt_of_lt hn))
      obtain ⟨hbegins, y, t, hrun, hgoes, hy, hnext⟩ := h.first hclose hat hdepth
      simp -implicitDefEqProofs only [commaListIn, Stateful.run_bind, run_atListEnd_item hclose hbegins,
        Bool.false_eq_true, if_false, hrun]
      obtain ⟨rfl, ht, hcomma⟩ | ⟨hcomma, ht, hgoes'⟩ := hnext
      · refine ⟨[y], t, ?_, ht, hgoes, .cons hy .nil⟩
        simp -implicitDefEqProofs only [run_accept_ne hcomma, Bool.false_eq_true, if_false, Stateful.run_pure]
      · have hgoes := hgoes.trans hgoes'
        obtain ⟨ys, s', hys, hs', hgoes'', hall⟩ := ih h.tail (Nat.lt_of_succ_lt_succ hn) ht (by
          rw [hgoes.depth]
          exact hdepth)
        refine ⟨y :: ys, s', ?_, hs', hgoes.trans hgoes'', .cons ?_ hall⟩
        · simp -implicitDefEqProofs only [run_accept_eq hcomma, if_true, Stateful.run_bind, hys, Stateful.run_pure]
        · exact h.mono x _ _ y (hgoes'.grows.trans hgoes''.grows) hy

theorem holedListIn_reads (hole : Parser α) (h : Items q item pieces levels holds xs)
    (hn : xs.length < n)
    (hat : s.At q (Piece.separated (xs.map pieces) ++ .mark .closeBracket :: rest))
    (hdepth : s.depth + levels ≤ maxExpressionDepth) :
    ∃ ys s', (holedListIn hole item n).run s = (ys, s') ∧ s'.At q (.mark .closeBracket :: rest) ∧
      s.GoesTo s' ∧ List.Forall₂ (fun x y => holds x s'.arena y) xs ys := by
  induction xs generalizing n s with
  | nil =>
      obtain ⟨n, rfl⟩ := Nat.exists_eq_succ_of_ne_zero (Nat.ne_of_gt hn)
      have hkind : s.kind = .punct .closeBracket := ParserState.At.kind hat
      refine ⟨[], s, ?_, hat, .refl s, .nil⟩
      simp -implicitDefEqProofs only [holedListIn, Stateful.run_bind, run_atListEnd hkind, if_true, Stateful.run_pure]
  | cons x xs ih =>
      obtain ⟨n, rfl⟩ := Nat.exists_eq_succ_of_ne_zero (Nat.ne_of_gt (Nat.zero_lt_of_lt hn))
      have hclose : Punct.closeBracket ∈ [.closeBrace, .closeParen, .closeBracket] := by decide
      obtain ⟨hbegins, y, t, hrun, hgoes, hy, hnext⟩ := h.first hclose hat hdepth
      have hitem := ne_comma_of_beginsItem hbegins
      simp -implicitDefEqProofs only [holedListIn, Stateful.run_bind, run_atListEnd_item hclose hbegins, run_kind,
        Bool.false_eq_true, if_false, beq_iff_eq, hitem, hrun]
      obtain ⟨rfl, ht, hcomma⟩ | ⟨hcomma, ht, hgoes'⟩ := hnext
      · refine ⟨[y], t, ?_, ht, hgoes, .cons hy .nil⟩
        simp -implicitDefEqProofs only [run_accept_ne hcomma, Bool.false_eq_true, if_false, Stateful.run_pure]
      · have hgoes := hgoes.trans hgoes'
        obtain ⟨ys, s', hys, hs', hgoes'', hall⟩ := ih h.tail (Nat.lt_of_succ_lt_succ hn) ht (by
          rw [hgoes.depth]
          exact hdepth)
        refine ⟨y :: ys, s', ?_, hs', hgoes.trans hgoes'', .cons ?_ hall⟩
        · simp -implicitDefEqProofs only [run_accept_eq hcomma, if_true, Stateful.run_bind, hys, Stateful.run_pure]
        · exact h.mono x _ _ y (hgoes'.grows.trans hgoes''.grows) hy

theorem Items.length_le (h : Items q item pieces levels holds xs) :
    xs.length ≤ (Piece.separated (xs.map pieces)).length := by
  induction xs with
  | nil => exact Nat.le_refl 0
  | cons x xs ih =>
      obtain ⟨p, ps, hp, -⟩ := h.begins x List.mem_cons_self
      have hrest := ih h.tail
      cases xs with
      | nil => simp [Piece.separated, hp]
      | cons z zs =>
          simp only [List.map_cons, Piece.separated, List.length_append, List.length_cons, hp]
            at hrest ⊢
          omega

theorem Items.lt_budget (h : Items q item pieces levels holds xs) {r : Piece}
    (hat : s.At q (Piece.separated (xs.map pieces) ++ r :: rest)) :
    xs.length < s.source.size + 1 := by
  have hle := h.length_le
  have hsize := hat.length_le
  rw [List.length_append] at hsize
  omega

theorem commaList_reads (hclose : close ∈ [.closeBrace, .closeParen, .closeBracket])
    (h : Items q item pieces levels holds xs)
    (hat : s.At q (Piece.separated (xs.map pieces) ++ .mark close :: rest))
    (hdepth : s.depth + levels ≤ maxExpressionDepth) :
    ∃ ys s', (commaList close item).run s = (ys, s') ∧ s'.At q rest ∧ s.GoesTo s' ∧
      List.Forall₂ (fun x y => holds x s'.arena y) xs ys := by
  obtain ⟨ys, t, hrun, ht, hgoes, hall⟩ := commaListIn_reads hclose h (h.lt_budget hat) hat hdepth
  obtain ⟨hnext, hgoes', -⟩ := ht.next
  have hend : t.kind = .punct close := ht.kind
  refine ⟨ys, t.advance, ?_, hnext, hgoes.trans hgoes', ?_⟩
  · simp -implicitDefEqProofs only [commaList, Stateful.run_bind, run_budget, hrun, run_expect hend, Stateful.run_pure]
  · exact hall.imp fun x y => h.mono x _ _ y hgoes'.grows

theorem holedList_reads (hole : Parser α) (h : Items q item pieces levels holds xs)
    (hat : s.At q (Piece.separated (xs.map pieces) ++ .mark .closeBracket :: rest))
    (hdepth : s.depth + levels ≤ maxExpressionDepth) :
    ∃ ys s', (holedList hole item).run s = (ys, s') ∧ s'.At q rest ∧ s.GoesTo s' ∧
      List.Forall₂ (fun x y => holds x s'.arena y) xs ys := by
  obtain ⟨ys, t, hrun, ht, hgoes, hall⟩ := holedListIn_reads hole h (h.lt_budget hat) hat hdepth
  obtain ⟨hnext, hgoes', -⟩ := ht.next
  have hend : t.kind = .punct .closeBracket := ht.kind
  refine ⟨ys, t.advance, ?_, hnext, hgoes.trans hgoes', ?_⟩
  · simp -implicitDefEqProofs only [holedList, Stateful.run_bind, run_budget, hrun, run_expect hend, Stateful.run_pure]
  · exact hall.imp fun x y => h.mono x _ _ y hgoes'.grows

end

/-! ## Links -/

/-- Whether the left-hand side that `ts` begins goes on with the links behind a node for `ts`. -/
def LinksTo (q : Quote) (parse : ExpressionKind → Parser Child) (ts : List Piece) (levels : Nat)
    (holds : Arena → NodeId → Prop) : Prop :=
  ∀ s rest, s.At q (ts ++ rest) → Written.Begins (ts ++ rest) →
    s.depth + levels ≤ maxExpressionDepth →
    ∃ id s' n, rest.length < n ∧
      (leftHandSide parse).run s = (linksIn parse true s.token.start n (some id)).run s' ∧
      s'.At q rest ∧ s.GoesTo s' ∧ holds s'.arena id

section

variable {parse : ExpressionKind → Parser Child} {holds : Arena → NodeId → Prop}

theorem linksTo_of_primary
    (h : ∀ s rest, s.At q (ts ++ rest) → Written.Begins (ts ++ rest) →
      s.depth + levels ≤ maxExpressionDepth →
      ∃ id s', (primary parse).run s = (some id, s') ∧ s'.At q rest ∧ s.GoesTo s' ∧
        holds s'.arena id) :
    LinksTo q parse ts levels holds := by
  intro s rest hat hbegins hdepth
  obtain ⟨id, t, hrun, ht, hgoes, hid⟩ := h s rest hat hbegins hdepth
  have hnew : (s.kind == .keyword .newWord) = false := by
    generalize ts ++ rest = row at hat hbegins
    cases row with
    | nil => exact hbegins.elim
    | cons p row =>
        rw [hat.kind]
        rcases begins_kind hbegins with hp | hp | hp | hp <;> rw [hp] <;> rfl
  refine ⟨id, t, t.source.size + 1, Nat.lt_succ_of_le ht.length_le, ?_, ht, hgoes, hid⟩
  simp -implicitDefEqProofs only [leftHandSide, newOrPrimary, links, Stateful.run_bind, run_pos, run_kind, hnew,
    Bool.false_eq_true, if_false, hrun, run_budget]

/-- Where no link follows, the left-hand side ends. -/
theorem leftHandSide_reads {n : Nat} (hstops : ∀ r ∈ stops, r ∈ .equals :: closers)
    (hbegins : ∀ r ∈ stops, ∀ rest, Written.Begins (ts ++ r :: rest))
    (h : LinksTo q (expressionIn n) ts levels holds) :
    ReadsAs q (expressionIn (n + 1) .leftHandSide) ts levels stops (IsNode holds) := by
  intro s r rest hat hr hdepth
  obtain ⟨id, t, k, hk, hrun, ht, hgoes, hid⟩ := h s _ hat (hbegins r hr rest) hdepth
  obtain ⟨k, rfl⟩ := Nat.exists_eq_succ_of_ne_zero (Nat.ne_of_gt (Nat.zero_lt_of_lt hk))
  refine ⟨some id, t, ?_, ht, hgoes, id, rfl, hid⟩
  change (leftHandSide (expressionIn n)).run s = _
  rw [hrun]
  have hr := hstops r hr
  simp only [closers, List.mem_cons, List.not_mem_nil, or_false] at hr
  simp -implicitDefEqProofs only [linksIn, Stateful.run_bind, run_kind, ht.kind]
  rcases hr with rfl | rfl | rfl | rfl | rfl | rfl <;> rfl

theorem linksTo_member {text : String} (hmono : ∀ a b id, a.Grows b → holds a id → holds b id)
    (h : LinksTo q parse ts levels holds) :
    LinksTo q parse (ts ++ [.mark .dot, .word text]) levels fun a id =>
      ∃ t m, a.form? (some id) = some (.propertyAccess (some t) (some m) false) ∧ holds a t ∧
        a.form? (some m) = some (.identifier text) := by
  intro s rest hat hbegins hdepth
  rw [List.append_assoc] at hat hbegins
  obtain ⟨id, t, n, hn, hrun, ht, hgoes, hid⟩ := h s _ hat hbegins hdepth
  obtain ⟨n, rfl⟩ := Nat.exists_eq_succ_of_ne_zero (Nat.ne_of_gt (Nat.zero_lt_of_lt hn))
  obtain ⟨hdot, hgoesDot, -⟩ := ht.next
  obtain ⟨m, u, hname, hu, hgoesName, hm⟩ := identifierName_reads hdot
  have hkind : t.kind = .punct .dot := ht.kind
  have hprivate : (t.advance.kind == .privateIdentifier) = false := by
    rw [hdot.kind, Piece.kind]
    split <;> rfl
  have hgrows := (hgoesDot.trans hgoesName).grows
  refine ⟨u.arena.size, u.addNode (.propertyAccess (some id) (some m) false) s.token.start {}, n,
    ?_, ?_, hu.addNode, ?_, id, m, ParserState.form?_addNode, ?_, ?_⟩
  · simp only [List.length_append, List.length_cons, List.length_nil] at hn
    omega
  · rw [hrun]
    simp -implicitDefEqProofs only [linksIn, Stateful.run_bind, run_kind, hkind, run_next, memberName, hprivate,
      Bool.false_eq_true, if_false, hname, run_finishChild]
  · exact (hgoes.trans (hgoesDot.trans hgoesName)).trans ParserState.goesTo_addNode
  · exact hmono _ _ id (hgrows.trans (Arena.grows_add _)) hid
  · exact Arena.grows_add _ m _ hm

theorem element_reads {holds : Arena → Child → Prop}
    (hbegins : ∃ p ps, ts = p :: ps ∧ BeginsItem p.kind)
    (h : ReadsAs q (parse .assignment) ts levels closers holds) :
    ReadsAs q (element parse) ts levels closers holds := by
  intro s r rest hat hr hdepth
  obtain ⟨x, t, hrun, ht, hgoes, hx⟩ := h s r rest hat hr hdepth
  obtain ⟨p, ps, rfl, hbegins⟩ := hbegins
  have hspread : s.kind ≠ .punct .dotDotDot := by
    rw [ParserState.At.kind hat]
    rcases hbegins with hp | hp | hp | hp <;> rw [hp] <;> decide
  refine ⟨x, t, ?_, ht, hgoes, hx⟩
  simp -implicitDefEqProofs only [element, Stateful.run_bind, run_pos, run_accept_ne hspread, Bool.false_eq_true,
    if_false, hrun]

theorem linksTo_call {us : List Piece} {holdsArgument : Arena → NodeId → Prop}
    (hmono : ∀ a b id, a.Grows b → holds a id → holds b id)
    (hmonoArgument : ∀ a b id, a.Grows b → holdsArgument a id → holdsArgument b id)
    (hform : ∀ a id, holdsArgument a id → ∃ form, a.form? (some id) = some form)
    (hbegins : ∃ p ps, us = p :: ps ∧ BeginsItem p.kind)
    (hargument : ReadsAs q (parse .assignment) us levels closers (IsNode holdsArgument))
    (h : LinksTo q parse ts levels holds) :
    LinksTo q parse (ts ++ .mark .openParen :: (us ++ [.mark .closeParen])) levels fun a id =>
      ∃ c x, a.form? (some id) = some (.call (some c) [some x] false) ∧ holds a c ∧ x < id ∧
        holdsArgument a x := by
  intro s rest hat hbeginsAll hdepth
  rw [List.append_assoc, List.cons_append, List.append_assoc] at hat hbeginsAll
  obtain ⟨id, t, n, hn, hrun, ht, hgoes, hid⟩ := h s _ hat hbeginsAll hdepth
  obtain ⟨n, rfl⟩ := Nat.exists_eq_succ_of_ne_zero (Nat.ne_of_gt (Nat.zero_lt_of_lt hn))
  obtain ⟨hopen, hgoesOpen, -⟩ := ht.next
  have hkind : t.kind = .punct .openParen := ht.kind
  have hitems : Items q (element parse) (fun _ : Unit => us) levels
      (fun _ => IsNode holdsArgument) [()] := by
    refine ⟨fun _ _ => element_reads hbegins hargument, fun _ _ => hbegins, ?_⟩
    rintro - a b y hg ⟨x, rfl, hx⟩
    exact ⟨x, rfl, hmonoArgument a b x hg hx⟩
  obtain ⟨ys, u, hlist, hu, hgoesList, hall⟩ := commaList_reads (by decide) hitems hopen (by
    rw [(hgoes.trans hgoesOpen).depth]
    exact hdepth)
  obtain ⟨_, _, ⟨x, rfl, hx⟩, hnil, rfl⟩ := List.forall₂_cons_left_iff.mp hall
  obtain rfl := List.forall₂_nil_left_iff.mp hnil
  refine ⟨u.arena.size, u.addNode (.call (some id) [some x] false) s.token.start {}, n, ?_, ?_,
    hu.addNode, ?_, id, x, ParserState.form?_addNode, ?_, ?_, ?_⟩
  · simp only [List.length_append, List.length_cons, List.length_nil] at hn
    omega
  · rw [hrun]
    simp -implicitDefEqProofs only [linksIn, Stateful.run_bind, run_kind, hkind, if_true, callArguments,
      run_expect hkind, hlist, run_finishChild]
  · exact (hgoes.trans (hgoesOpen.trans hgoesList)).trans ParserState.goesTo_addNode
  · exact hmono _ _ id ((hgoesOpen.trans hgoesList).grows.trans (Arena.grows_add _)) hid
  · obtain ⟨form, hform⟩ := hform _ _ hx
    exact Arena.lt_size_of_form? hform
  · exact hmonoArgument _ _ x (Arena.grows_add _) hx

/-! ## Primary expressions -/

theorem linksTo_name {text : String} :
    LinksTo q parse [.word text] 0 fun a id => a.form? (some id) = some (.identifier text) := by
  apply linksTo_of_primary
  intro s rest hat hbegins _
  obtain ⟨id, t, hname, ht, hgoes, hid⟩ := identifierName_reads hat
  cases rest with
  | nil => exact hbegins.elim
  | cons r rest =>
      cases r with
      | mark m =>
          have hkind : s.kind = .identifier := by
            rw [ParserState.At.kind hat, Piece.kind, hbegins.1]
          refine ⟨id, t, ?_, ht, hgoes, hid⟩
          simp -implicitDefEqProofs only [primary, Stateful.run_bind, Stateful.run_get, hkind,
            ParserState.At.isAsyncFunction hat, Bool.false_eq_true, if_false, hname]
      | _ => exact hbegins.elim

theorem linksTo_string {text : String} :
    LinksTo q parse [.string text] 0 fun a id => a.form? (some id) = some (.literal .string text) := by
  apply linksTo_of_primary
  intro s rest hat _ _
  have hkind : s.kind = .string := ParserState.At.kind hat
  obtain ⟨id, t, hrun, ht, hgoes, hid⟩ := tokenNode_reads (.literal .string) hat
  refine ⟨id, t, ?_, ht, hgoes, hid⟩
  simp -implicitDefEqProofs only [primary, Stateful.run_bind, Stateful.run_get, hkind, literal, hrun]

theorem string_reads {text : String} {n : Nat} :
    ReadsAs q (expressionIn (n + 4) .assignment) [.string text] 2 closers
      (IsNode fun a id => a.form? (some id) = some (.literal .string text)) := by
  have hbegins : ∀ r ∈ closers, ∀ rest, Written.Begins ([.string text] ++ r :: rest) :=
    fun _ _ _ => trivial
  exact assignment_reads hbegins
    (leftHandSide_reads (fun _ => List.mem_cons_of_mem _) hbegins linksTo_string)

/-- An array of strings; one without elements opens no further expressions. -/
theorem linksTo_strings {values : List String}
    (h : ∀ v ∈ values, ReadsAs q (parse .assignment) [.string v] levels closers
      (IsNode fun a id => a.form? (some id) = some (.literal .string v))) :
    LinksTo q parse (Written.strings values).pieces levels ((Written.strings values).Holds ·) := by
  apply linksTo_of_primary
  intro s rest hat _ hdepth
  have hrow : s.At q (.mark .openBracket ::
      (Piece.separated (values.map fun v => [.string v]) ++ .mark .closeBracket :: rest)) := by
    simpa only [Written.pieces, List.cons_append, List.append_assoc, List.nil_append] using hat
  have hkind : s.kind = .punct .openBracket := hrow.kind
  obtain ⟨hopen, hgoesOpen, -⟩ := hrow.next
  have hitems : Items q (element parse) (fun v => [.string v]) levels
      (fun v => IsNode fun a id => a.form? (some id) = some (.literal .string v)) values := by
    refine ⟨fun v hv => element_reads ⟨_, _, rfl, .inr (.inl rfl)⟩ (h v hv),
      fun v _ => ⟨_, _, rfl, .inr (.inl rfl)⟩, ?_⟩
    rintro v a b y hg ⟨x, rfl, hx⟩
    exact ⟨x, rfl, hg x _ hx⟩
  obtain ⟨ys, u, hlist, hu, hgoes, hall⟩ := holedList_reads (do
    let hole ← pos
    next
    return some (← finishHole hole)) hitems hopen (by
      rw [hgoesOpen.depth]
      exact hdepth)
  obtain ⟨ids, rfl, hids⟩ := exists_nodes hall
  refine ⟨u.arena.size, u.addNode (.arrayLiteral (ids.map some)) s.token.start {}, ?_, hu.addNode,
    (hgoesOpen.trans hgoes).trans ParserState.goesTo_addNode, ids, ParserState.form?_addNode,
    hids.imp fun _ i hi => Arena.grows_add _ i _ hi⟩
  simp -implicitDefEqProofs only [primary, Stateful.run_bind, Stateful.run_get, hkind, arrayLiteral, run_pos, run_next,
    hlist, run_finishChild]

/-- Whether a node assigns an expression to a string. -/
def IsProperty (p : String × Written) (a : Arena) (i : NodeId) : Prop :=
  ∃ n v, a.form? (some i) = some (.propertyAssignment n (some v)) ∧
    a.form? (some n) = some (.literal .string p.1) ∧ p.2.Holds a v

theorem IsProperty.mono {p : String × Written} {a b : Arena} {i : NodeId} (hg : a.Grows b)
    (h : IsProperty p a i) : IsProperty p b i := by
  obtain ⟨n, v, hi, hn, hv⟩ := h
  exact ⟨n, v, hg i _ hi, hg n _ hn, hv.mono hg⟩

theorem holdsAll_of_forall₂ {a : Arena} {properties : List (String × Written)} {ids : List NodeId}
    (h : List.Forall₂ (fun p i => IsProperty p a i) properties ids) :
    Written.HoldsAll a properties ids := by
  induction h with
  | nil => rfl
  | @cons p i properties ids hp _ ih =>
      obtain ⟨n, v, hi, hn, hv⟩ := hp
      exact ⟨i, n, v, ids, rfl, hi, hn, hv, ih⟩

theorem objectElement_reads {p : String × Written}
    (h : ReadsAs q (parse .assignment) p.2.pieces levels closers (IsNode (p.2.Holds ·))) :
    ReadsAs q (objectElement parse) (.string p.1 :: .mark .colon :: p.2.pieces) levels closers
      (IsNode (IsProperty p)) := by
  intro s r rest hat hr hdepth
  have hkind : s.kind = .string := ParserState.At.kind hat
  have hspread : s.kind ≠ .punct .dotDotDot := by rw [hkind]; decide
  have hgenerator : s.kind ≠ .punct .asterisk := by rw [hkind]; decide
  have hmodifier : s.isMethodModifier = false := by
    simp [ParserState.isMethodModifier, ParserState.isWord, hkind]
  obtain ⟨n, t, hname, ht, hgoesName, hn⟩ := tokenNode_reads (.literal .string) hat
  have hcolon : t.kind = .punct .colon := ht.kind
  obtain ⟨hvalue, hgoesColon, -⟩ := ht.next
  have hgoesValue := hgoesName.trans hgoesColon
  obtain ⟨_, u, hrun, hu, hgoes, v, rfl, hv⟩ := h t.advance r rest hvalue hr (by
    rw [hgoesValue.depth]
    exact hdepth)
  refine ⟨some u.arena.size, u.addNode (.propertyAssignment n (some v)) s.token.start {}, ?_,
    hu.addNode, (hgoesValue.trans hgoes).trans ParserState.goesTo_addNode, u.arena.size, rfl, n, v,
    ParserState.form?_addNode, ?_, hv.mono (Arena.grows_add _)⟩
  · have hparen : (t.kind == .punct .openParen) = false := by rw [hcolon]; rfl
    simp -implicitDefEqProofs only [objectElement, Stateful.run_bind, run_pos,
      run_accept_ne hspread, run_accept_ne hgenerator, Stateful.run_get, hmodifier,
      Bool.false_eq_true, if_false, propertyName, hkind, literal, hname,
      run_kind, hparen, Bool.or_self, propertyRest, run_accept_eq hcolon, if_true, hrun,
      run_finishChild]
  · exact ((hgoesColon.trans hgoes).grows.trans (Arena.grows_add _)) n _ hn

theorem linksTo_object {properties : List (String × Written)}
    (h : ∀ p ∈ properties,
      ReadsAs q (parse .assignment) p.2.pieces levels closers (IsNode (p.2.Holds ·))) :
    LinksTo q parse (Written.object properties).pieces levels
      ((Written.object properties).Holds ·) := by
  apply linksTo_of_primary
  intro s rest hat _ hdepth
  have hrow : s.At q (.mark .openBrace :: (Piece.separated (properties.map fun p =>
      .string p.1 :: .mark .colon :: p.2.pieces) ++ .mark .closeBrace :: rest)) := by
    simpa only [Written.pieces, Written.propertyPieces_eq, List.cons_append, List.append_assoc,
      List.nil_append] using hat
  have hkind : s.kind = .punct .openBrace := hrow.kind
  obtain ⟨hopen, hgoesOpen, -⟩ := hrow.next
  have hitems : Items q (objectElement parse)
      (fun p : String × Written => .string p.1 :: .mark .colon :: p.2.pieces) levels
      (fun p => IsNode (IsProperty p)) properties := by
    refine ⟨fun p hp => objectElement_reads (h p hp), fun p _ => ⟨_, _, rfl, .inr (.inl rfl)⟩, ?_⟩
    rintro p a b y hg ⟨i, rfl, hi⟩
    exact ⟨i, rfl, hi.mono hg⟩
  obtain ⟨ys, u, hlist, hu, hgoes, hall⟩ := commaList_reads (by decide) hitems hopen (by
    rw [hgoesOpen.depth]
    exact hdepth)
  obtain ⟨ids, rfl, hids⟩ := exists_nodes hall
  have hreduce : (ids.map some).reduceOption = ids := by
    change (ids.map some).filterMap id = ids
    rw [List.filterMap_map]
    exact List.filterMap_some
  refine ⟨u.arena.size, u.addNode (.objectLiteral ids) s.token.start {}, ?_, hu.addNode,
    (hgoesOpen.trans hgoes).trans ParserState.goesTo_addNode, ids, ParserState.form?_addNode, ?_⟩
  · simp -implicitDefEqProofs only [primary, Stateful.run_bind, Stateful.run_get, hkind,
      objectLiteral, run_pos, run_next, hlist, hreduce, run_finishChild]
  · exact holdsAll_of_forall₂ (hids.imp fun _ _ hi => hi.mono (Arena.grows_add _))

end

/-! ## Written expressions -/

theorem ReadsAs.weaken {p : Parser α} {levels' : Nat} (hle : levels ≤ levels')
    (h : ReadsAs q p ts levels stops holds) : ReadsAs q p ts levels' stops holds := by
  intro s r rest hat hr hdepth
  exact h s r rest hat hr (by omega)

theorem LinksTo.weaken {parse : ExpressionKind → Parser Child} {holds : Arena → NodeId → Prop}
    {levels' : Nat} (hle : levels ≤ levels') (h : LinksTo q parse ts levels holds) :
    LinksTo q parse ts levels' holds := by
  intro s rest hat hbegins hdepth
  exact h s rest hat hbegins (by omega)

theorem begins_closers {e : Written} (hfree : e.NamesFree) :
    ∀ r ∈ closers, ∀ rest, Written.Begins (e.pieces ++ r :: rest) := by
  intro r hr rest
  simp only [closers, List.mem_cons, List.not_mem_nil, or_false] at hr
  rcases hr with rfl | rfl | rfl | rfl | rfl <;> exact Written.begins_pieces hfree (by decide) rest

theorem exists_first {e : Written} (hfree : e.NamesFree) :
    ∃ p ps, e.pieces = p :: ps ∧ BeginsItem p.kind := by
  have hbegins := Written.begins_pieces hfree (show Punct.comma ≠ .openParen by decide) []
  cases hpieces : e.pieces with
  | nil =>
      rw [hpieces] at hbegins
      obtain h | h := hbegins <;> cases h
  | cons p ps =>
      rw [hpieces] at hbegins
      exact ⟨p, ps, rfl, begins_kind hbegins⟩

/-- Where its links are read, an expression is read on its own. -/
theorem assignment_of_linksTo {e : Written} {n : Nat} (hfree : e.NamesFree)
    (h : LinksTo q (expressionIn n) e.pieces levels (e.Holds ·)) :
    ReadsAs q (expressionIn (n + 4) .assignment) e.pieces (levels + 2) closers
      (IsNode (e.Holds ·)) :=
  assignment_reads (begins_closers hfree)
    (leftHandSide_reads (fun _ => List.mem_cons_of_mem _) (begins_closers hfree) h)

theorem linksTo_invoke {parse : ExpressionKind → Parser Child} {target argument : Written}
    {method : String} (hfree : argument.NamesFree)
    (htarget : LinksTo q parse target.pieces levels (target.Holds ·))
    (hargument : ReadsAs q (parse .assignment) argument.pieces levels closers
      (IsNode (argument.Holds ·))) :
    LinksTo q parse (Written.invoke target method argument).pieces levels
      ((Written.invoke target method argument).Holds ·) := by
  have hcallee : LinksTo q parse (Written.member target method).pieces levels
      ((Written.member target method).Holds ·) :=
    linksTo_member (fun _ _ _ hg h => h.mono hg) htarget
  have hmono (e : Written) a b id (hg : Arena.Grows a b) (h : e.Holds a id) : e.Holds b id :=
    h.mono hg
  exact linksTo_call (hmono (.member target method)) (hmono argument) (fun _ _ h => h.exists_form)
    (exists_first hfree) hargument hcallee

mutual

/-- The parser reads what is written. -/
theorem linksTo_pieces {n : Nat} : ∀ (e : Written), 4 * e.height ≤ n → e.NamesFree →
    LinksTo q (expressionIn n) e.pieces (2 * e.height) (e.Holds ·)
  | .name text, _, _ => linksTo_name
  | .strings values, hn, _ => by
      apply linksTo_strings
      intro v hv
      have hheight : (Written.strings values).height = 1 := by
        cases values with
        | nil => cases hv
        | cons => rfl
      rw [hheight] at hn ⊢
      obtain ⟨m, rfl⟩ := Nat.exists_eq_add_of_le' hn
      exact string_reads
  | .object properties, hn, hfree => linksTo_object (properties_read properties hn hfree)
  | .member target text, hn, hfree =>
      linksTo_member (fun _ _ _ hg h => h.mono hg) (linksTo_pieces target hn hfree)
  | .invoke target method argument, hn, ⟨hfree, hfreeArgument⟩ => by
      have htarget : target.height ≤ (Written.invoke target method argument).height :=
        Nat.le_max_left _ _
      have hargument : argument.height + 1 ≤ (Written.invoke target method argument).height :=
        Nat.le_max_right _ _
      obtain ⟨m, rfl⟩ := Nat.exists_eq_add_of_le' (show 4 ≤ n by omega)
      have hread := assignment_of_linksTo hfreeArgument
        (linksTo_pieces argument (show _ ≤ m by omega) hfreeArgument)
      have hcallee := linksTo_pieces target (show _ ≤ m + 4 by omega) hfree
      exact linksTo_invoke hfreeArgument (hcallee.weaken (by omega)) (hread.weaken (by omega))

theorem properties_read {n : Nat} : ∀ (properties : List (String × Written)),
    4 * Written.propertiesHeight properties ≤ n → Written.PropertyNamesFree properties →
    ∀ p ∈ properties, ReadsAs q (expressionIn n .assignment) p.2.pieces
      (2 * Written.propertiesHeight properties) closers (IsNode (p.2.Holds ·))
  | [], _, _, _, hp => nomatch hp
  | (key, e) :: properties, hn, ⟨hfree, hfreeRest⟩, p, hp => by
      have hfirst : e.height + 1 ≤ Written.propertiesHeight ((key, e) :: properties) :=
        Nat.le_max_left _ _
      have hrest : Written.propertiesHeight properties ≤
          Written.propertiesHeight ((key, e) :: properties) := Nat.le_max_right _ _
      obtain rfl | hp := List.mem_cons.mp hp
      · obtain ⟨m, rfl⟩ := Nat.exists_eq_add_of_le' (show 4 ≤ n by omega)
        have hread := assignment_of_linksTo hfree
          (linksTo_pieces e (show _ ≤ m by omega) hfree)
        exact hread.weaken (by omega)
      · exact (properties_read properties (by omega) hfreeRest p hp).weaken (by omega)

end

end Parser

end PropContract
