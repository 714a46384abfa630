import PropContract.Proofs.Parse.File

/-!
# Statements behind other text

A statement begins with a token, and reading it consumes that token first. What ends before the token, and whether
a line break stands between, makes no difference then: behind any text the statement is read as it is at the
beginning.
-/

namespace PropContract

namespace ParserState

/-- The same state behind another text: what has been consumed ends elsewhere, and a line break may stand
before the token. -/
def behind (s : ParserState) (prevEnd : Nat) (afterLineBreak : Bool) : ParserState :=
  { s with prevEnd, lexer := { s.lexer with token := { s.lexer.token with afterLineBreak } } }

end ParserState

namespace Parser

open ParserState

variable {α β : Type} {s : ParserState} {p : Parser α}

/-- Whether a program does the same behind any text. -/
def Heedless (s : ParserState) (p : Parser α) : Prop :=
  ∀ prevEnd afterLineBreak, p.run (s.behind prevEnd afterLineBreak) = p.run s

theorem Heedless.next (k : Unit → Parser α) : Heedless s (next >>= k) := fun _ _ => rfl

theorem Heedless.jumpTo (pos : Nat) (k : Unit → Parser α) : Heedless s (jumpTo pos >>= k) := fun _ _ => rfl

theorem Heedless.pos {k : Nat → Parser α} (h : Heedless s (k s.token.start)) : Heedless s (pos >>= k) := h

theorem Heedless.kind {k : TokenKind → Parser α} (h : Heedless s (k s.kind)) : Heedless s (kind >>= k) := h

theorem Heedless.budget {k : Nat → Parser α} (h : Heedless s (k (s.source.size + 1))) : Heedless s (budget >>= k) := h

theorem Heedless.get {k : ParserState → Parser α} (h : Heedless s (k s))
    (hk : ∀ prevEnd b, k (s.behind prevEnd b) = k s) : Heedless s (MonadState.get >>= k) := fun e b => by
  change (k (s.behind e b)).run (s.behind e b) = _
  rw [hk]
  exact h e b

theorem Heedless.bind {k : α → Parser β} (h : Heedless s p) : Heedless s (p >>= k) := fun e b => by
  rw [Stateful.run_bind, h e b]
  rfl

theorem Heedless.modify {f : ParserState → ParserState} {k : PUnit → Parser α}
    (hf : ∀ e b, f (s.behind e b) = (f s).behind e b) (h : Heedless (f s) (k ⟨⟩)) :
    Heedless s (modify f >>= k) := fun e b => by
  change (k ⟨⟩).run (f (s.behind e b)) = _
  rw [hf]
  exact h e b

theorem Heedless.ite {c : Prop} [Decidable c] {q : Parser α} (h : c → Heedless s p) (h' : ¬ c → Heedless s q) :
    Heedless s (if c then p else q) := by
  split
  · exact h ‹_›
  · exact h' ‹_›

theorem expect_heedless {k : TokenKind} (h : s.kind = k) : Heedless s (expect k) := by
  have haccept : Heedless s (accept k) :=
    .kind (.ite (fun _ => .next _) fun hne => absurd (beq_iff_eq.mpr h) hne)
  exact haccept.bind

theorem identifierName_heedless (h : s.isName = true) : Heedless s identifierName :=
  .get (.ite (fun _ => .next _) fun hne => absurd h hne) fun _ _ => rfl

theorem functionLike_heedless {modifiers : Modifiers} (h : s.isWord "async" = true ∨ s.kind = .keyword .functionWord) :
    Heedless s (functionLike modifiers) := by
  refine .get (.ite (fun _ => .next _) fun hasync => ?_) fun _ _ => rfl
  exact .bind (expect_heedless (h.resolve_left hasync))

theorem classLike_heedless {parse : ExpressionKind → Parser Child} (h : s.kind = .keyword .classWord) :
    Heedless s (classLike parse) :=
  .bind (expect_heedless h)

/-! ## Expressions that begin with a name -/

/-- Whether the token is a name, or `import` as in `import.meta`. -/
def BeginsName (s : ParserState) : Prop :=
  s.kind = .identifier ∨ s.kind = .keyword .importWord

section

variable {parse : ExpressionKind → Parser Child}

theorem primary_heedless (h : BeginsName s) : Heedless s (primary parse) := by
  have hname : s.isName = true := by
    rcases h with h | h <;> rw [ParserState.isName, h] <;> rfl
  refine .get ?_ fun _ _ => rfl
  rcases h with h | h <;> rw [h]
  · refine .ite (fun hasync => ?_) fun _ => identifierName_heedless hname
    exact .pos (.bind (functionLike_heedless (.inl (Bool.and_eq_true_iff.mp hasync).1)))
  · exact identifierName_heedless hname

theorem leftHandSide_heedless (h : BeginsName s) : Heedless s (leftHandSide parse) := by
  refine .pos (.bind (.kind (.ite (fun hnew => ?_) fun _ => primary_heedless h)))
  rcases h with h | h <;> rw [h] at hnew <;> exact absurd hnew (by decide)

theorem unary_heedless (h : BeginsName s) (hp : Heedless s (parse .leftHandSide)) :
    Heedless s (unary parse) := by
  refine .get (.ite (fun hoperator => ?_) fun _ => hp.bind) fun _ _ => rfl
  rcases h with h | h <;> rw [h] at hoperator <;> exact absurd hoperator (by decide)

theorem nested_heedless {body : Parser Child} (hdepth : s.depth < maxExpressionDepth)
    (h : Heedless { s with depth := s.depth + 1 } body) : Heedless s (nested body) :=
  .get (.ite (fun hdeep => absurd hdeep (Nat.not_le_of_lt hdepth)) fun _ =>
    .modify (fun _ _ => rfl) h.bind) fun _ _ => rfl

theorem assignment_heedless (hp : Heedless s (parse (.binary 0))) : Heedless s (assignment parse) := by
  refine .get ?_ fun _ _ => rfl
  cases s.arrowFunction? with
  | some found => exact .pos (.jumpTo _ _)
  | none => exact .pos (.bind (.pos hp.bind))

end

/-- Reading such an expression consumes the name first. -/
theorem expression_heedless (h : BeginsName s) (hdepth : s.depth + 1 < maxExpressionDepth) :
    Heedless s (expression .assignment) := by
  refine .budget ?_
  have hlevels : 6 * (s.source.size + 1) = 6 * s.source.size + 5 + 1 := rfl
  rw [hlevels]
  have hleft {t : ParserState} (n : Nat) (ht : BeginsName t) : Heedless t (expressionIn (n + 1) .leftHandSide) :=
    leftHandSide_heedless ht
  have hunary : Heedless { s with depth := s.depth + 1 } (expressionIn (6 * s.source.size + 3 + 1) .unary) :=
    nested_heedless hdepth (unary_heedless h (hleft _ h))
  have hbinary : Heedless { s with depth := s.depth + 1 } (expressionIn (6 * s.source.size + 4 + 1) (.binary 0)) :=
    .pos hunary.bind
  exact nested_heedless (Nat.lt_of_succ_lt hdepth) (assignment_heedless hbinary)

/-! ## Statements -/

theorem expressionStatement_heedless (h : BeginsName s) (hdepth : s.depth + 1 < maxExpressionDepth) :
    Heedless s expressionStatement :=
  .pos (.bind (.pos (.bind (expression_heedless h hdepth))))

theorem functionDeclaration_heedless {start : Nat} {modifiers : Modifiers}
    (h : s.isWord "async" = true ∨ s.kind = .keyword .functionWord) :
    Heedless s (functionDeclaration start modifiers) :=
  .bind (functionLike_heedless h)

/-- Whether the token begins a declaration, an import, an export or a statement that begins with a name. -/
def BeginsStatement (s : ParserState) : Prop :=
  s.kind ∈ [.keyword .importWord, .keyword .exportWord, .keyword .constWord, .keyword .letWord, .keyword .varWord,
    .keyword .classWord, .keyword .functionWord, .identifier]

theorem statement_heedless (h : BeginsStatement s) (hdepth : s.depth + 1 < maxExpressionDepth) :
    Heedless s statement := by
  refine .get ?_ fun _ _ => rfl
  simp only [BeginsStatement, List.mem_cons, List.not_mem_nil, or_false] at h
  rcases h with h | h | h | h | h | h | h | h <;> rw [h]
  · exact .ite (fun _ => expressionStatement_heedless (.inr h) hdepth) fun _ => .pos (.next _)
  · exact .pos (.next _)
  · exact .next _
  · exact .next _
  · exact .next _
  · exact .bind (classLike_heedless h)
  · exact functionDeclaration_heedless (.inr h)
  · refine .ite (fun hasync => ?_) fun _ => expressionStatement_heedless (.inl h) hdepth
    exact functionDeclaration_heedless (.inl (Bool.and_eq_true_iff.mp hasync).1)

theorem fileStatement_heedless (h : BeginsStatement s) (hdepth : s.depth + 1 < maxExpressionDepth) :
    Heedless s fileStatement := by
  refine .get (.ite (fun hbrace => ?_) fun _ => (statement_heedless h hdepth).bind) fun _ _ => rfl
  rw [BeginsStatement, eq_of_beq hbrace] at h
  exact absurd h (by decide)

theorem fileStatementsIn_heedless (h : BeginsStatement s) (hdepth : s.depth + 1 < maxExpressionDepth) (n : Nat) :
    Heedless s (fileStatementsIn (n + 1)) := by
  refine .kind (.ite (fun hend => ?_) fun _ => (fileStatement_heedless h hdepth).bind)
  rw [BeginsStatement, eq_of_beq hend] at h
  exact absurd h (by decide)

end Parser

end PropContract
