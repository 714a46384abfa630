import PropContract.Parse.Expression
import PropContract.Proofs.Text.Suffix
import PropContract.Proofs.Token.Fits

/-!
# Tokens of a text at the end of a larger one

Scanning depends on nothing before its offset, so the larger text has the same tokens there. What is
skipped looks back for what an expression may follow, but never past the bracket that opens a group.
-/

namespace PropContract

open Text

def LexicalError.moved (offset : Nat) (e : LexicalError) : LexicalError :=
  { e with start := offset + e.start }

namespace Token

def moved (offset : Nat) (t : Token) : Token :=
  { t with start := offset + t.start, stop := offset + t.stop }

def Trivia.moved (offset : Nat) (t : Trivia) : Trivia :=
  { t with stop := offset + t.stop, unclosed := t.unclosed.map (offset + ·) }

def Lexeme.moved (offset : Nat) (l : Lexeme) : Lexeme :=
  { l with stop := offset + l.stop, error := l.error.map (·.moved offset) }

variable {t s : Source} {offset pos n : Nat} (h : t.EndsWith offset s)

include h

/-! ## Blanks and comments -/

theorem lineCommentEnd_suffix : lineCommentEnd t (offset + pos) = offset + lineCommentEnd s pos := by
  rw [lineCommentEnd, lineCommentEnd, h.find?, h.size]
  cases s.find? isLineBreak pos <;> rfl

theorem findCommentClose_suffix :
    findCommentClose t n (offset + pos) = (findCommentClose s n pos).map (offset + ·) := by
  induction n generalizing pos with
  | zero => rfl
  | succ n ih =>
      rw [findCommentClose, findCommentClose, Nat.add_assoc, h.charAt, h.charAt, ih]
      split <;> rfl

theorem blockCommentEnd_suffix :
    blockCommentEnd t (offset + pos) =
      (blockCommentEnd s pos).map fun found => (offset + found.1, found.2) := by
  have hsub (close : Nat) : offset + close - (offset + (pos + 2)) = close - (pos + 2) :=
    Nat.add_sub_add_left ..
  rw [blockCommentEnd, blockCommentEnd]
  simp only [Nat.add_assoc, h.size_sub, findCommentClose_suffix h, Option.map_map]
  cases findCommentClose s (s.size - (pos + 2)) (pos + 2) with
  | none => rfl
  | some close => simp [hsub, h.findIn, Nat.add_assoc]

theorem triviaIn_suffix {lineBreak : Bool} :
    triviaIn t n (offset + pos) lineBreak = (triviaIn s n pos lineBreak).moved offset := by
  induction n generalizing pos lineBreak with
  | zero => rfl
  | succ n ih =>
      rw [triviaIn, triviaIn]
      simp only [Nat.add_assoc, h.charAt, lineCommentEnd_suffix h, blockCommentEnd_suffix h, ih]
      simp only [apply_ite (Trivia.moved offset)]
      cases blockCommentEnd s pos with
      | none => simp [Trivia.moved, h.size]
      | some found => simp only [Option.map_some, ih, Trivia.moved, Option.map_none]

theorem triviaAt_suffix : triviaAt t (offset + pos) = (triviaAt s pos).moved offset := by
  rw [triviaAt, triviaAt, h.size_sub, triviaIn_suffix h]

theorem skipTriviaIn_suffix :
    skipTriviaIn t n (offset + pos) = offset + skipTriviaIn s n pos := by
  induction n generalizing pos with
  | zero => rfl
  | succ n ih =>
      rw [skipTriviaIn, skipTriviaIn]
      simp only [Nat.add_assoc, h.charAt, lineCommentEnd_suffix h, blockCommentEnd_suffix h, ih]
      simp only [apply_ite (offset + ·)]
      cases blockCommentEnd s pos with
      | none => simp [h.size]
      | some found => simp only [Option.map_some, ih]

theorem skipTrivia_suffix : skipTrivia t (offset + pos) = offset + skipTrivia s pos := by
  rw [skipTrivia, skipTrivia, h.size_sub, skipTriviaIn_suffix h]

/-! ## Text that is stepped over -/

theorem stringEndIn_suffix {quote : Char} :
    stringEndIn t quote n (offset + pos) = (stringEndIn s quote n pos).map (offset + ·) := by
  induction n generalizing pos with
  | zero => rfl
  | succ n ih =>
      rw [stringEndIn, stringEndIn, h.find?]
      cases s.find? (fun c => c == quote || c == '\\' || c == '\n') pos with
      | none => rfl
      | some p =>
          simp only [Option.map_some, Option.bind_eq_bind, Option.bind_some, Nat.add_assoc, h.charAt,
            ih]
          simp only [apply_ite (Option.map (offset + ·)), Option.map_some, Option.map_none]

theorem stringEnd_suffix {quote : Char} :
    stringEnd t (offset + pos) quote = (stringEnd s pos quote).map (offset + ·) := by
  rw [stringEnd, stringEnd, h.size_sub, Nat.add_assoc, stringEndIn_suffix h]

theorem templateEndIn_suffix {group group' : Nat → Option Nat} {substituted : Bool}
    (hgroup : ∀ p, (closer? (s.charAt p)).isSome = true → group' (offset + p) = (group p).map (offset + ·)) :
    templateEndIn t group' n (offset + pos) substituted =
      (templateEndIn s group n pos substituted).map fun found => (offset + found.1, found.2) := by
  induction n generalizing pos substituted with
  | zero => rfl
  | succ n ih =>
      rw [templateEndIn, templateEndIn, h.find?]
      cases s.find? (fun c => c == '`' || c == '\\' || c == '$') pos with
      | none => rfl
      | some p =>
          simp only [Option.map_some, Option.bind_eq_bind, Option.bind_some, Nat.add_assoc, h.charAt,
            ih]
          split
          · rfl
          · split
            · rfl
            · split
              · rename_i hopen
                rw [hgroup _ (by rw [beq_iff_eq.mp hopen]; rfl)]
                cases group (p + 1) with
                | none => rfl
                | some stop => exact ih
              · rfl

theorem templateEnd_suffix {group group' : Nat → Option Nat}
    (hgroup : ∀ p, (closer? (s.charAt p)).isSome = true → group' (offset + p) = (group p).map (offset + ·)) :
    templateEnd t group' (offset + pos) =
      (templateEnd s group pos).map fun found => (offset + found.1, found.2) := by
  rw [templateEnd, templateEnd, h.size_sub, Nat.add_assoc, templateEndIn_suffix h hgroup]

theorem regexCloseIn_suffix {inClass : Bool} :
    regexCloseIn t n (offset + pos) inClass = (regexCloseIn s n pos inClass).map (offset + ·) := by
  induction n generalizing pos inClass with
  | zero => rfl
  | succ n ih =>
      rw [regexCloseIn, regexCloseIn]
      simp only [Nat.add_assoc, h.charAt, h.size, Nat.add_le_add_iff_left, ih,
        apply_ite (Option.map (offset + ·)), Option.map_none, Option.map_some]

theorem regexEnd_suffix : regexEnd t (offset + pos) = (regexEnd s pos).map (offset + ·) := by
  rw [regexEnd, regexEnd, h.size_sub, Nat.add_assoc, regexCloseIn_suffix h, Option.map_map,
    Option.map_map]
  refine congrArg (fun f => Option.map f _) (funext fun close => ?_)
  exact (congrArg (t.skipWhile isIdentifierPart) (Nat.add_assoc _ _ _)).trans h.skipWhile

/-- Looking back ends at a bracket in the shorter text at the latest. -/
theorem expressionMayStart_suffix {q : Nat} (hq : q < pos) (hopen : (closer? (s.charAt q)).isSome = true) :
    expressionMayStart t (offset + pos) = expressionMayStart s pos := by
  have hstops : isAsciiSpace (s.charAt q) = false ∧ isIdentifierPart (s.charAt q) = false := by
    unfold closer? at hopen
    split at hopen
    · rename_i heq
      rw [heq]
      decide
    · rename_i heq
      rw [heq]
      decide
    · rename_i heq
      rw [heq]
      decide
    · simp at hopen
  obtain ⟨-, -, hall⟩ := Source.skipBack_spec (s := s) (p := isAsciiSpace) pos
  have hlt : q < s.skipBack isAsciiSpace pos := by
    apply Nat.lt_of_not_le
    intro hle
    exact absurd (hall q hle hq) (by rw [hstops.1]; decide)
  rw [expressionMayStart, expressionMayStart, h.skipBack hq hstops.1]
  cases hback : s.skipBack isAsciiSpace pos with
  | zero => omega
  | succ stop =>
      rw [hback] at hlt
      have hword := h.skipBack hlt hstops.2
      rw [← Nat.add_assoc] at hword ⊢
      simp only [h.charAt, hword]
      rw [Nat.add_assoc, h.slice]

section

variable {inner inner' : Opaque → Nat → Option Nat}
  (hinner : ∀ o p, (o = .group → (closer? (s.charAt p)).isSome = true) →
    inner' o (offset + p) = (inner o p).map (offset + ·))

include hinner

theorem itemEnd_suffix (hopen : ∃ q, q < pos ∧ (closer? (s.charAt q)).isSome = true) :
    itemEnd t inner' (offset + pos) = (itemEnd s inner pos).map (offset + ·) := by
  obtain ⟨q, hq, hopen⟩ := hopen
  rw [itemEnd, itemEnd]
  simp only [Nat.add_assoc, h.charAt, stringEnd_suffix h, lineCommentEnd_suffix h, blockCommentEnd_suffix h,
    regexEnd_suffix h, expressionMayStart_suffix h hq hopen, hinner .template pos Opaque.noConfusion,
    hinner .element pos Opaque.noConfusion, apply_ite (Option.map (offset + ·)), Option.map_map, Option.map_some]
  rfl

theorem groupEndIn_suffix (hends : ∀ o p, EndsAfter s p (inner o p)) {closers : List Char}
    (hopen : (closer? (s.charAt pos)).isSome = true ∨
      ∃ q, q < pos ∧ (closer? (s.charAt q)).isSome = true) :
    groupEndIn t inner' n (offset + pos) closers =
      (groupEndIn s inner n pos closers).map (offset + ·) := by
  induction n generalizing pos closers with
  | zero => rfl
  | succ n ih =>
      have later {pos' : Nat} {closers : List Char} (hlt : pos < pos') :
          groupEndIn t inner' n (offset + pos') closers =
            (groupEndIn s inner n pos' closers).map (offset + ·) := by
        apply ih
        rcases hopen with hopen | ⟨q, hq, hopen⟩
        · exact .inr ⟨pos, hlt, hopen⟩
        · exact .inr ⟨q, Nat.lt_trans hq hlt, hopen⟩
      by_cases hsize : s.size ≤ pos
      · rw [groupEndIn, groupEndIn, if_pos hsize, if_pos (h.size ▸ Nat.add_le_add_left hsize offset)]
        rfl
      have hlt := Nat.lt_of_not_le hsize
      rw [groupEndIn_step inner n hlt, groupEndIn_step inner' n (h.size ▸ Nat.add_lt_add_left hlt offset), h.charAt]
      cases hclose : closer? (s.charAt pos) with
      | some close => exact later (Nat.lt_succ_self pos)
      | none =>
          dsimp only
          split
          · cases closers with
            | nil => rfl
            | cons close rest =>
                dsimp only
                split
                · rfl
                split
                · rfl
                · exact later (Nat.lt_succ_self pos)
          · have hbehind : ∃ q, q < pos ∧ (closer? (s.charAt q)).isSome = true := by
              rcases hopen with hopen | hopen
              · rw [hclose] at hopen
                exact absurd hopen (by decide)
              · exact hopen
            rw [itemEnd_suffix h hinner hbehind]
            cases hitem : itemEnd s inner pos with
            | none => rfl
            | some next => exact later (lt_itemEnd hends hitem)

theorem childrenEndIn_suffix :
    childrenEndIn t inner' n (offset + pos) = (childrenEndIn s inner n pos).map (offset + ·) := by
  induction n generalizing pos with
  | zero => rfl
  | succ n ih =>
      rw [childrenEndIn, childrenEndIn, h.find?]
      cases hfind : s.find? (fun c => c == '<' || c == '{') pos with
      | none => rfl
      | some p =>
          simp only [Option.map_some, Option.bind_eq_bind, Option.bind_some, Nat.add_assoc, h.charAt,
            h.find?, hinner .element p Opaque.noConfusion]
          split
          · rename_i hbrace
            rw [hinner .group p fun _ => by rw [beq_iff_eq.mp hbrace]; rfl]
            cases inner .group p with
            | none => rfl
            | some stop => exact ih
          · split
            · cases s.find? (· == '>') p <;> rfl
            · cases inner .element p with
              | none => rfl
              | some stop => exact ih

theorem childrenEnd_suffix :
    childrenEnd t inner' (offset + pos) = (childrenEnd s inner pos).map (offset + ·) := by
  rw [childrenEnd, childrenEnd, h.size_sub, childrenEndIn_suffix h hinner]

theorem attributesEndIn_suffix :
    attributesEndIn t inner' n (offset + pos) = (attributesEndIn s inner n pos).map (offset + ·) := by
  induction n generalizing pos with
  | zero => rfl
  | succ n ih =>
      rw [attributesEndIn, attributesEndIn]
      simp only [Nat.add_assoc, h.charAt, h.size, Nat.add_le_add_iff_left, h.find?, ih,
        childrenEnd_suffix h hinner]
      split
      · rfl
      · split
        · rfl
        · split
          · rfl
          · split
            · rename_i hbrace
              rw [hinner .group pos fun _ => by rw [beq_iff_eq.mp hbrace]; rfl]
              cases inner .group pos with
              | none => rfl
              | some stop => exact ih
            · split
              · cases s.find? (· == s.charAt pos) (pos + 1) with
                | none => rfl
                | some q => exact @ih (q + 1)
              · rfl

theorem elementEnd_suffix :
    elementEnd t inner' (offset + pos) = (elementEnd s inner pos).map (offset + ·) := by
  rw [elementEnd, elementEnd]
  simp only [Nat.add_assoc, h.charAt, h.skipWhile, h.size_sub, childrenEnd_suffix h hinner,
    attributesEndIn_suffix h hinner]
  split <;> rfl

end

/-- What is stepped over ends at the same place of the larger text. -/
theorem opaqueEnd_suffix (level : Nat) (o : Opaque)
    (hopen : o = .group → (closer? (s.charAt pos)).isSome = true) :
    opaqueEnd t level o (offset + pos) = (opaqueEnd s level o pos).map (offset + ·) := by
  have template (pos : Nat) {group group' : Nat → Option Nat} (hgroup : ∀ p,
      (closer? (s.charAt p)).isSome = true → group' (offset + p) = (group p).map (offset + ·)) :
      (templateEnd t group' (offset + pos)).map (·.1) =
        ((templateEnd s group pos).map (·.1)).map (offset + ·) := by
    rw [templateEnd_suffix h hgroup, Option.map_map, Option.map_map]
    rfl
  induction level generalizing o pos with
  | zero =>
      cases o with
      | template => exact template pos fun _ _ => rfl
      | group => rfl
      | element => rfl
  | succ level ih =>
      cases o with
      | group =>
          rw [opaqueEnd, opaqueEnd, h.size_sub]
          exact groupEndIn_suffix h (fun o p hopen => ih o hopen) (opaqueEnd_ends s level)
            (.inl (hopen rfl))
      | template => exact template pos fun p hopen => ih .group fun _ => hopen
      | element => exact elementEnd_suffix h fun o p hopen => ih o hopen

theorem groupEnd_suffix (hopen : (closer? (s.charAt pos)).isSome = true) :
    groupEnd t (offset + pos) = (groupEnd s pos).map (offset + ·) :=
  opaqueEnd_suffix h _ .group fun _ => hopen

theorem markupEnd_suffix : markupEnd t (offset + pos) = (markupEnd s pos).map (offset + ·) :=
  opaqueEnd_suffix h _ .element Opaque.noConfusion

/-! ## Lexemes and tokens -/

theorem identifierEnd_suffix : identifierEnd t (offset + pos) = offset + identifierEnd s pos :=
  h.skipWhile

theorem scanWord_suffix : scanWord t (offset + pos) = (scanWord s pos).moved offset := by
  simp only [scanWord, identifierEnd_suffix h, h.slice, Lexeme.moved, Option.map_none]

theorem stringContentsIn_suffix {quote : Char} :
    stringContentsIn t quote n (offset + pos) =
      (offset + (stringContentsIn s quote n pos).1, (stringContentsIn s quote n pos).2) := by
  induction n generalizing pos with
  | zero => rw [stringContentsIn, stringContentsIn, h.size]
  | succ n ih =>
      rw [stringContentsIn, stringContentsIn, h.find?]
      cases s.find? (fun c => c == quote || c == '\\' || c == '\n') pos with
      | none => simp only [Option.map_none, h.size]
      | some p =>
          simp only [Option.map_some, Nat.add_assoc, h.charAt, h.size, Nat.add_min_add_left, ih]
          split <;> rfl

theorem scanString_suffix {quote : Char} :
    scanString t (offset + pos) quote = (scanString s pos quote).moved offset := by
  rw [scanString, scanString, h.size_sub, Nat.add_assoc, stringContentsIn_suffix h]
  generalize stringContentsIn s quote (s.size - pos) (pos + 1) = found
  obtain ⟨stop, closed⟩ := found
  simp only [h.slice, Lexeme.moved, Nat.add_sub_add_left]
  cases closed <;> rfl

theorem scanTemplate_suffix : scanTemplate t (offset + pos) = (scanTemplate s pos).moved offset := by
  have hfound : templateLiteralEnd t (offset + pos) =
      (templateLiteralEnd s pos).map fun found => (offset + found.1, found.2) :=
    templateEnd_suffix h fun p hopen => opaqueEnd_suffix h maxSkipDepth .group fun _ => hopen
  rw [scanTemplate, scanTemplate, hfound]
  cases hclose : templateLiteralEnd s pos with
  | none => simp only [Option.map_none, Lexeme.moved, h.size, Nat.add_sub_add_left, Option.map_some,
      LexicalError.moved]
  | some found =>
      obtain ⟨stop, substituted⟩ := found
      have hpos : 1 ≤ stop := by
        obtain ⟨close, -, -, hstop⟩ := templateLiteralEnd_spec hclose
        change stop = close + 1 at hstop
        omega
      have hslice : t.slice (offset + pos + 1) (offset + stop - 1) = s.slice (pos + 1) (stop - 1) := by
        rw [Nat.add_sub_assoc hpos, Nat.add_assoc, h.slice]
      cases substituted with
      | true => simp only [Option.map_some, Lexeme.verbatim, hslice, Lexeme.moved, Option.map_none]
      | false => simp only [Option.map_some, hslice, Lexeme.moved, Option.map_none]

theorem decimalEnd_suffix : decimalEnd t (offset + pos) = offset + decimalEnd s pos := by
  rw [decimalEnd, decimalEnd]
  simp only [h.skipWhile, h.charAt, Nat.add_assoc]
  simp only [← apply_ite (offset + ·), h.charAt, Nat.add_assoc, h.skipWhile]

theorem scanNumber_suffix : scanNumber t (offset + pos) = (scanNumber s pos).moved offset := by
  have number (stop : Nat) :
      (if s.charAt stop == 'n' then Lexeme.verbatim t (offset + pos) (offset + (stop + 1)) .bigInt
      else .verbatim t (offset + pos) (offset + stop) .numeric) =
      (if s.charAt stop == 'n' then Lexeme.verbatim s pos (stop + 1) .bigInt
      else .verbatim s pos stop .numeric).moved offset := by
    rw [apply_ite (Lexeme.moved offset)]
    simp only [Lexeme.verbatim, h.slice, Lexeme.moved, Option.map_none]
  rw [scanNumber, scanNumber]
  simp only [Nat.add_assoc, h.charAt, h.skipWhile, decimalEnd_suffix h, ← apply_ite (offset + ·),
    number]

theorem scanPunctuation_suffix :
    scanPunctuation t (offset + pos) = (scanPunctuation s pos).moved offset := by
  rw [scanPunctuation, scanPunctuation]
  simp only [h.holdsAt, Nat.add_assoc, h.charAt]
  generalize TokenKind.punctuation.find? _ = found
  cases found <;> rfl

theorem scanLexeme_suffix : scanLexeme t (offset + pos) = (scanLexeme s pos).moved offset := by
  rw [scanLexeme, scanLexeme]
  simp only [Nat.add_assoc, h.charAt, scanString_suffix h, scanTemplate_suffix h,
    scanNumber_suffix h, scanWord_suffix h, scanPunctuation_suffix h,
    apply_ite (Lexeme.moved offset)]
  rfl

/-- The token at an offset of a text is that of the larger text, and so are the errors. -/
theorem scanAt_suffix :
    scanAt t (offset + pos) =
      ((scanAt s pos).1.moved offset, (scanAt s pos).2.map (·.moved offset)) := by
  rw [scanAt, scanAt, triviaAt_suffix h]
  simp only [Trivia.moved, h.size, Nat.add_le_add_iff_left, scanLexeme_suffix h]
  split
  · cases (triviaAt s pos).unclosed with
    | none => rfl
    | some open_ => simp [moved, LexicalError.moved, Nat.add_sub_add_left]
  · cases (triviaAt s pos).unclosed with
    | none => cases hl : (scanLexeme s (triviaAt s pos).stop).error <;> simp [moved, Lexeme.moved, hl]
    | some open_ =>
      cases hl : (scanLexeme s (triviaAt s pos).stop).error <;>
        simp [moved, Lexeme.moved, LexicalError.moved, hl, Nat.add_sub_add_left]

theorem asRegex_suffix (token : Token) :
    (token.moved offset).asRegex t =
      ((token.asRegex s).1.moved offset, (token.asRegex s).2.map (·.moved offset)) := by
  rw [asRegex, asRegex]
  simp only [moved, regexEnd_suffix h, lineCommentEnd_suffix h]
  split
  · cases regexEnd s token.start with
    | none => simp [LexicalError.moved, Nat.add_sub_add_left]
    | some stop => simp [h.slice]
  · rfl

theorem arrowEnd?_suffix : arrowEnd? t (offset + pos) = (arrowEnd? s pos).map (offset + ·) := by
  have arrow (stop : Nat) :
      (if t.startsWithAt (skipTrivia t (offset + stop)) "=>" then
        some (skipTrivia t (offset + stop) + 2) else none) =
      (if s.startsWithAt (skipTrivia s stop) "=>" then
        some (skipTrivia s stop + 2) else none).map (offset + ·) := by
    rw [skipTrivia_suffix h, h.startsWithAt, apply_ite (Option.map (offset + ·))]
    rfl
  rw [arrowEnd?, arrowEnd?]
  simp only [h.charAt, h.skipWhile]
  split
  · rename_i hopen
    rw [groupEnd_suffix h (by rw [beq_iff_eq.mp hopen]; rfl)]
    cases groupEnd s pos with
    | none => rfl
    | some stop => exact arrow stop
  · split
    · exact arrow _
    · rfl

end Token

end PropContract
