import PropContract.Proofs.Parse.File

/-!
# Stray words

A word such as `else` begins no statement and no expression. Where it stands alone, nothing is read, and an
error is reported.
-/

namespace PropContract

open Text

namespace Parser

open ParserState

variable {α β : Type} {s t : ParserState} {p : Parser α} {parse : ExpressionKind → Parser Child} {n : Nat}

/-- The reserved words that go on with something, and cannot begin or follow an expression. -/
def strayWords : List Keyword := [.elseWord, .catchWord, .finallyWord, .caseWord, .defaultWord, .extendsWord]

/-- Whether the current token is such a word. -/
def AtStray (s : ParserState) : Prop :=
  ∃ k ∈ strayWords, s.kind = .keyword k

/-- Whether a program reports an error and does nothing else. -/
def Rejects (s : ParserState) (p : Parser α) : Prop :=
  ∃ x errors, errors ≠ [] ∧ p.run s = (x, { s with errors })

theorem Rejects.pure (h : s.errors ≠ []) (x : α) : Rejects s (Pure.pure x) := ⟨x, s.errors, h, rfl⟩

theorem Rejects.bind {k : α → Parser β} (h : Rejects s p)
    (hk : ∀ x errors, errors ≠ [] → Rejects { s with errors } (k x)) : Rejects s (p >>= k) := by
  obtain ⟨x, errors, hne, hrun⟩ := h
  obtain ⟨y, errors', hne', hrun'⟩ := hk x errors hne
  exact ⟨y, errors', hne', by rw [Stateful.run_bind, hrun, hrun']⟩

theorem Rejects.pos {k : Nat → Parser α} (h : Rejects s (k s.token.start)) : Rejects s (pos >>= k) := h

theorem Rejects.kind {k : TokenKind → Parser α} (h : Rejects s (k s.kind)) : Rejects s (kind >>= k) := h

theorem Rejects.budget {k : Nat → Parser α} (h : Rejects s (k (s.source.size + 1))) : Rejects s (budget >>= k) := h

theorem Rejects.get {k : ParserState → Parser α} (h : Rejects s (k s)) : Rejects s (MonadState.get >>= k) := h

theorem Rejects.ite_neg {c : Prop} [Decidable c] {q : Parser α} (hc : ¬ c) (h : Rejects s q) :
    Rejects s (if c then p else q) := by
  rwa [if_neg hc]

theorem Rejects.ite_pos {c : Prop} [Decidable c] {q : Parser α} (hc : c) (h : Rejects s p) :
    Rejects s (if c then p else q) := by
  rwa [if_pos hc]

/-- What cannot be where a stray word is. -/
theorem AtStray.ne (h : AtStray s) {k : TokenKind} (hk : k ∉ strayWords.map .keyword) : (s.kind == k) = false := by
  obtain ⟨w, hw, hkind⟩ := h
  rw [hkind]
  exact beq_false_of_ne fun heq => hk (heq ▸ List.mem_map_of_mem hw)

theorem AtStray.of_kind {f : TokenKind → β} {x : β} (h : AtStray s) (hf : ∀ k ∈ strayWords, f (.keyword k) = x) :
    f s.kind = x := by
  obtain ⟨w, hw, hkind⟩ := h
  rw [hkind]
  exact hf w hw

/-- A token that is not the current one is not accepted. -/
theorem accept_rejects {k : TokenKind} {q : Bool → Parser α} (h : AtStray s) (hk : k ∉ strayWords.map .keyword)
    (hq : Rejects s (q false)) : Rejects s (accept k >>= q) := by
  have hrun : (accept k).run s = (false, s) := by
    rw [accept, Stateful.run_bind]
    change (if s.kind == k then _ else _ : Parser Bool).run s = _
    rw [h.ne hk]
    rfl
  obtain ⟨x, errors, hne, hrun'⟩ := hq
  exact ⟨x, errors, hne, by rw [Stateful.run_bind, hrun, hrun']⟩

/-- A report is added to the errors, or dropped where there are some. -/
theorem errorHere_rejects (h : s.quiet = true → s.errors ≠ []) (message : Message) (args : List String) :
    Rejects s (errorHere message args) := by
  have hne := (errors_reportHere message args h).1
  have hsame : s.reportHere message args = { s with errors := (s.reportHere message args).errors } := by
    simp only [reportHere, report]
    split <;> rfl
  exact ⟨⟨⟩, _, hne, congrArg (Prod.mk PUnit.unit) hsame⟩

theorem primary_rejects (h : AtStray s) (hquiet : s.quiet = true → s.errors ≠ []) : Rejects s (primary parse) := by
  have hreport : Rejects s (errorHere .expressionExpected >>= fun _ => (Pure.pure none : Parser Child)) :=
    .bind (errorHere_rejects hquiet _ _) fun _ _ hne => .pure hne none
  obtain ⟨k, hk, hkind⟩ := h
  refine .get ?_
  simp only [strayWords, List.mem_cons, List.not_mem_nil, or_false] at hk
  rcases hk with rfl | rfl | rfl | rfl | rfl | rfl <;> rw [hkind] <;> exact hreport

theorem leftHandSide_rejects (h : AtStray s) (hquiet : s.quiet = true → s.errors ≠ []) :
    Rejects s (leftHandSide parse) := by
  have hnew : ¬ (s.kind == .keyword .newWord) = true := by
    rw [h.ne (by decide)]
    decide
  refine .pos (.bind (.kind (.ite_neg hnew (primary_rejects h hquiet))) fun target errors hne => ?_)
  refine .budget (.kind ?_)
  obtain ⟨k, hk, hkind⟩ := h
  have hkind : ({ s with errors } : ParserState).kind = .keyword k := hkind
  refine ⟨target, errors, hne, ?_⟩
  simp only [strayWords, List.mem_cons, List.not_mem_nil, or_false] at hk
  rcases hk with rfl | rfl | rfl | rfl | rfl | rfl <;> rw [hkind] <;> rfl

theorem unary_rejects (h : AtStray s) (hp : Rejects s (parse .leftHandSide)) : Rejects s (unary parse) := by
  have hbefore : s.kind.isPrefixOperator = false := h.of_kind (by decide)
  have hafter : s.kind.isPostfixOperator = false := h.of_kind (by decide)
  have hafter : (s.kind.isPostfixOperator && !s.token.afterLineBreak) = false := by
    rw [hafter, Bool.false_and]
  refine .get (.ite_neg (ne_true_of_eq_false hbefore) (.bind hp fun operand errors hne => ?_))
  exact .get (.ite_neg (ne_true_of_eq_false hafter) (.pure hne _))

theorem nested_rejects {body : Parser Child} (hdepth : s.depth < maxExpressionDepth)
    (h : Rejects { s with depth := s.depth + 1 } body) : Rejects s (nested body) := by
  refine .get (.ite_neg (Nat.not_le_of_lt hdepth) ?_)
  obtain ⟨x, errors, hne, hrun⟩ := h
  refine ⟨x, errors, hne, ?_⟩
  rw [Stateful.run_bind, Stateful.run_modify, Stateful.run_bind, hrun]
  rfl

theorem binary_rejects (h : AtStray s) (hp : Rejects s (parse .unary)) : Rejects s (binary parse 0) := by
  have hprecedence : s.kind.precedence = 0 := h.of_kind (by decide)
  exact .pos (.bind hp fun left errors hne => .budget (.kind (.ite_pos (.inl hprecedence) (.pure hne _))))

theorem assignment_rejects (h : AtStray s) (hp : Rejects s (parse (.binary 0))) : Rejects s (assignment parse) := by
  have harrow : s.arrowFunction? = none := by
    rw [arrowFunction?, isWord, h.ne (by decide), h.ne (by decide)]
    rfl
  have hassign : s.kind.isAssignment = false := h.of_kind (by decide)
  refine .get ?_
  rw [harrow]
  refine .pos (.bind (.pos (.bind hp fun condition errors hne => ?_)) fun left errors hne => ?_)
  · exact accept_rejects h (by decide) (.ite_neg Bool.false_ne_true (.pure hne _))
  · exact .kind (.ite_neg (ne_true_of_eq_false hassign) (.pure hne _))

/-- Where a stray word is, no expression is read. -/
theorem expression_rejects (h : AtStray s) (hdepth : s.depth + 1 < maxExpressionDepth)
    (hquiet : s.quiet = true → s.errors ≠ []) : Rejects s (expression .assignment) := by
  refine .budget ?_
  have hlevels : 6 * (s.source.size + 1) = 6 * s.source.size + 5 + 1 := rfl
  rw [hlevels]
  have hleft {t : ParserState} (n : Nat) (ht : AtStray t) (hquiet : t.quiet = true → t.errors ≠ []) :
      Rejects t (expressionIn (n + 1) .leftHandSide) := leftHandSide_rejects ht hquiet
  have hunary : Rejects { s with depth := s.depth + 1 } (expressionIn (6 * s.source.size + 3 + 1) .unary) :=
    nested_rejects hdepth (unary_rejects h (hleft _ h hquiet))
  exact nested_rejects (Nat.lt_of_succ_lt hdepth) (assignment_rejects h (binary_rejects h hunary))

/-! ## Statements and files -/

theorem expectSemicolon_rejects (h : AtStray s) (hne : s.errors ≠ []) : Rejects s expectSemicolon := by
  refine accept_rejects h (by decide) (.ite_neg Bool.false_ne_true (.get ?_))
  split
  · exact .pure hne _
  · exact errorHere_rejects (fun _ => hne) _ _

/-- Where a stray word is, no statement is read, and an error is reported. -/
theorem statement_reports (h : AtStray s) (hdepth : s.depth + 1 < maxExpressionDepth)
    (hquiet : s.quiet = true → s.errors ≠ []) : (statement.run s).2.errors ≠ [] := by
  have hcomma : Rejects s (commaExpression expression) :=
    .pos (.bind (expression_rejects h hdepth hquiet) fun first errors hne => .budget
      (accept_rejects h (by decide) (.ite_neg Bool.false_ne_true (.pure hne _))))
  have hstatement : statement.run s = expressionStatement.run s := by
    obtain ⟨k, hk, hkind⟩ := h
    rw [statement, Stateful.run_bind, Stateful.run_get]
    simp only [strayWords, List.mem_cons, List.not_mem_nil, or_false] at hk
    rcases hk with rfl | rfl | rfl | rfl | rfl | rfl <;> rw [hkind] <;> rfl
  have hsemicolon : Rejects s (commaExpression expression >>= fun e => expectSemicolon >>= fun _ => Pure.pure e) :=
    .bind hcomma fun e errors hne => .bind (expectSemicolon_rejects h hne) fun _ _ hne => .pure hne e
  obtain ⟨x, errors, hne, hrun⟩ := hsemicolon
  rw [hstatement]
  change ((commaExpression expression >>= fun e => expectSemicolon >>= fun _ => Pure.pure e).run s).2.errors ≠ []
  rw [hrun]
  exact hne

/-- The error of a stray word at the beginning of a file stays. -/
theorem fileStatements_unclean {text : String} (h : AtStray (initial text).advance) :
    ¬ (fileStatements.run (initial text)).2.Clean := by
  have hs := ready_first text
  have herrors := statement_reports h (show 0 + 1 < maxExpressionDepth by decide) hs.quiet
  have hstatement := (statement_runs (d := .identity (.ofString text)) hs).after.ready
  have hmoves := fileStatements_moves (ne_of_beq_false (h.ne (by decide))) (ne_of_beq_false (h.ne (by decide)))
  exact fun hclean => herrors ((hmoves.ready hstatement).2.clean hclean).1

end Parser

namespace Module

open ParserState

/-- A text that begins with a stray word has errors. -/
theorem errors_ne_nil_of_stray (fileName : String) {text : String} (h : Parser.AtStray (initial text).advance) :
    (Module.parse fileName text).errors ≠ [] :=
  fun herrors => Parser.fileStatements_unclean h (clean_of_errors fileName text rfl herrors)

end Module

end PropContract
