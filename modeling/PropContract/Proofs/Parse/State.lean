import PropContract.Parse.Expression
import PropContract.Proofs.Arena
import PropContract.Proofs.Stateful
import PropContract.Proofs.Token.Piece

/-!
# Parser states over pieces

Where a parser stands in a row of pieces, and what one token does to it.
-/

namespace PropContract

open Text

namespace ParserState

/-- Whether the current token is the first one of the pieces, and the others follow it. -/
def At (q : Quote) (s : ParserState) : List Piece → Prop
  | [] => s.kind = .endOfFile
  | p :: ts =>
    ∃ cs, s.token = p.token q s.token.start ∧ p.IsPlain ∧ p.EndsAt cs ∧
      s.source.Rest s.token.start (p.chars q ++ cs) ∧ Lexes q cs ts

/-- Whether reading goes on to a later state without errors, in the same expression. -/
structure GoesTo (s s' : ParserState) : Prop where
  source : s'.source = s.source
  errors : s'.errors = s.errors
  lexicalErrors : s'.lexer.errors = s.lexer.errors
  depth : s'.depth = s.depth
  quiet : s'.quiet = s.quiet
  grows : s.arena.Grows s'.arena
  start : s.token.start ≤ s'.token.start

variable {q : Quote} {s s' t : ParserState} {p r : Piece} {ts : List Piece}

theorem GoesTo.refl (s : ParserState) : s.GoesTo s :=
  ⟨rfl, rfl, rfl, rfl, rfl, .refl _, Nat.le_refl _⟩

theorem GoesTo.trans (h : s.GoesTo s') (h' : s'.GoesTo t) : s.GoesTo t where
  source := h'.source.trans h.source
  errors := h'.errors.trans h.errors
  lexicalErrors := h'.lexicalErrors.trans h.lexicalErrors
  depth := h'.depth.trans h.depth
  quiet := h'.quiet.trans h.quiet
  grows := h.grows.trans h'.grows
  start := Nat.le_trans h.start h'.start

/-! ## The current token -/

theorem At.kind (h : s.At q (p :: ts)) : s.kind = p.kind := by
  obtain ⟨cs, htoken, -⟩ := h
  exact congrArg Token.kind htoken

theorem At.value (h : s.At q (p :: ts)) : s.token.value = p.value := by
  obtain ⟨cs, htoken, -⟩ := h
  exact congrArg Token.value htoken

theorem At.length_le (h : s.At q ts) : ts.length ≤ s.source.size := by
  cases ts with
  | nil => exact Nat.zero_le _
  | cons p ts =>
      obtain ⟨cs, -, hp, hends, hrest, hl⟩ := h
      have hlength := (Lexes.cons hp hends hl).length_le
      have hwidth := length_le_width (p.chars q ++ cs)
      have hsize := hrest.size_eq
      omega

/-- The next token is the first piece of what follows the current one. -/
theorem advance_at {cs : List Char} (hl : Lexes q cs ts) (hrest : s.source.Rest s.token.stop cs) :
    s.advance.At q ts ∧ s.token.stop ≤ s.advance.token.start ∧
      s.advance.source = s.source ∧ s.advance.lexer.errors = s.lexer.errors := by
  have hscan (t : Token) (h : Token.scanAt s.source s.token.stop = (t, [])) :
      s.advance.token = t ∧ s.advance.lexer.errors = s.lexer.errors := by
    change s.lexer.scan.token = t ∧ s.lexer.scan.errors = s.lexer.errors
    rw [Lexer.scan, show Token.scanAt s.lexer.source s.lexer.token.stop = _ from h]
    exact ⟨rfl, List.append_nil _⟩
  cases ts with
  | nil =>
      obtain ⟨start, hle, htoken⟩ := hl.scan_nil hrest
      obtain ⟨hadvanced, herrors⟩ := hscan _ htoken
      refine ⟨?_, ?_, rfl, herrors⟩
      · rw [At, ParserState.kind, hadvanced]
      · rw [hadvanced]
        exact hle
  | cons r ts =>
      obtain ⟨start, ds, hle, -, htoken, hr, hends, hrrest, hl⟩ := hl.scan_cons hrest
      obtain ⟨hadvanced, herrors⟩ := hscan _ htoken
      have hstart : s.advance.token.start = start := congrArg Token.start hadvanced
      refine ⟨⟨ds, ?_, hr, hends, ?_, hl⟩, ?_, rfl, herrors⟩
      · rw [hadvanced]
        rfl
      · rw [hstart]
        exact hrrest
      · rw [hstart]
        exact hle

/-- Reading goes on at the next piece. -/
theorem At.next (h : s.At q (p :: ts)) :
    s.advance.At q ts ∧ s.GoesTo s.advance ∧ s.token.start < s.advance.token.start := by
  obtain ⟨cs, htoken, hp, hends, hrest, hl⟩ := h
  have hstop : s.token.stop = s.token.start + width (p.chars q) := congrArg Token.stop htoken
  have hpos : 0 < width (p.chars q) := by
    obtain ⟨c, ds, hchars, hc⟩ := p.exists_chars_eq_cons q hp
    rw [hchars, width_ascii hc.1]
    exact Nat.succ_pos _
  obtain ⟨hat, hle, hsource, herrors⟩ := advance_at hl (hstop ▸ hrest.drop)
  exact ⟨hat, ⟨hsource, rfl, herrors, rfl, rfl, .refl _, by omega⟩, by omega⟩

/-! ## Adding nodes -/

variable {form : Form} {pos : Nat} {modifiers : Modifiers}

theorem At.addNode (h : s.At q ts) : (s.addNode form pos modifiers).At q ts := by
  cases ts <;> exact h

theorem goesTo_addNode : s.GoesTo (s.addNode form pos modifiers) :=
  ⟨rfl, rfl, rfl, rfl, rfl, Arena.grows_add _, Nat.le_refl _⟩

theorem form?_addNode :
    (s.addNode form pos modifiers).arena.form? (some s.arena.size) = some form := by
  rw [ParserState.addNode, Arena.form?_add, if_pos rfl]

/-! ## Looking ahead -/

/-- What the text goes on with after the current token. -/
theorem At.peek (h : s.At q (p :: r :: ts)) :
    ∃ ds, r.IsPlain ∧ s.source.Rest s.peekPos (r.chars q ++ ds) := by
  obtain ⟨cs, htoken, -, -, hrest, hl⟩ := h
  have hstop : s.token.stop = s.token.start + width (p.chars q) := congrArg Token.stop htoken
  obtain ⟨start, ds, -, htrivia, -, hr, -, hrrest, -⟩ := hl.scan_cons (hstop ▸ hrest.drop)
  refine ⟨ds, hr, ?_⟩
  rw [peekPos, htrivia]
  exact hrrest

theorem At.peek_mark {m : Punct} (h : s.At q (p :: .mark m :: ts)) :
    ∃ c ds, s.source.Rest s.peekPos (c :: ds) ∧ c.toNat < 0x80 ∧ isIdentifierStart c = false ∧
      c ≠ '=' ∧ (c = '(' → m = .openParen) := by
  obtain ⟨ds, hm, hrest⟩ := h.peek
  obtain ⟨c, hc⟩ := Piece.exists_isWrittenAs m hm
  rw [Piece.chars, hc.spelling] at hrest
  exact ⟨c, ds, hrest, hc.begins.1, hc.beginsPunctuation.2.2.2.2.2, hc.ne_equals, hc.paren⟩

theorem At.isAsyncFunction {m : Punct} (h : s.At q (p :: .mark m :: ts)) :
    s.isAsyncFunction = false := by
  obtain ⟨c, ds, hrest, hascii, hstart, -⟩ := h.peek_mark
  have hne : c ≠ 'f' := by
    rintro rfl
    exact absurd hstart (by decide)
  rw [ParserState.isAsyncFunction, peeksWord,
    hrest.startsWithAt_eq_false (show "function".toList = 'f' :: _ from rfl) (by decide) hascii hne]
  simp

/-- No arrow function begins at a word that a mark follows, unless the mark opens parentheses. -/
theorem At.arrowFunction_word {m : Punct} {text : String} (hm : m ≠ .openParen)
    (h : s.At q (.word text :: .mark m :: ts)) : s.arrowFunction? = none := by
  obtain ⟨c, ds, hpeek, hascii, hstart, hequals, hparen⟩ := h.peek_mark
  obtain ⟨cs, htoken, ⟨⟨d, es, htext, hd⟩, hall⟩, ⟨e, fs, rfl, he⟩, hrest, -⟩ := h
  have hstop : s.token.stop = s.token.start + width text.toList := congrArg Token.stop htoken
  have hskip : s.source.skipWhile isIdentifierPart s.token.start = s.token.stop :=
    hstop ▸ hrest.skipWhile (fun _ => Source.isIdentifierPart_of_le) (fun c hc => (hall c hc).2) he
  have hchar : s.source.charAt s.token.start = d := by
    rw [Piece.chars, htext] at hrest
    exact Source.Rest.charAt hrest (hall d (by simp [htext])).1
  have hne : d ≠ '(' := by
    rintro rfl
    exact absurd hd (by decide)
  have hplain : arrowEnd? s.source s.token.start = none := by
    have harrow : s.source.startsWithAt (Token.skipTrivia s.source s.token.stop) "=>" = false :=
      hpeek.startsWithAt_eq_false (show "=>".toList = '=' :: _ from rfl) (by decide) hascii hequals
    simp [arrowEnd?, hchar, hne, hd, hskip, harrow]
  have hasync : arrowEnd? s.source s.peekPos = none := by
    have hnotParen : c ≠ '(' := fun hc => hm (hparen hc)
    simp [arrowEnd?, hpeek.charAt hascii, hnotParen, hstart]
  simp [arrowFunction?, hplain, hasync]

end ParserState

end PropContract
