import PropContract.Proofs.Token.Fits

/-!
# The lexer with its offsets checked

A slice of a source is empty where it does not cut out whole characters, and a loop of the lexer stops
where its budget is used up. Here is the same lexer where both are failures, and so is to look behind the
end of the text. It never fails where it begins on a character boundary, and then it gives the same; what
steps over text never fails at all, wherever it stands.
-/

namespace PropContract

namespace Text

/-- The first byte of a character is no byte that goes on with one. -/
theorem lead_of_utf8EncodeChar (c : Char) :
    ∃ b bs, String.utf8EncodeChar c = b :: bs ∧ (b.toNat < 0x80 ∨ 0xC0 ≤ b.toNat) := by
  unfold String.utf8EncodeChar
  dsimp only
  split
  · exact ⟨_, _, rfl, .inl (by rw [UInt8.toNat_ofNat']; omega)⟩
  · split
    · exact ⟨_, _, rfl, .inr (by rw [UInt8.toNat_ofNat']; omega)⟩
    · split <;> exact ⟨_, _, rfl, .inr (by rw [UInt8.toNat_ofNat']; omega)⟩

namespace Source

/-- Whether a character begins at an offset, or the text ends there, as its byte tells. -/
def isBoundary (s : Source) (pos : Nat) : Bool :=
  pos == s.size || (s.byte? pos).any fun b => b.toNat < 0x80 || 0xC0 ≤ b.toNat

/-- The text between two offsets, if they cut out whole characters. -/
def slice? (s : Source) (start stop : Nat) : Option String :=
  if start ≤ stop && s.isBoundary start && s.isBoundary stop then some (s.slice start stop) else none

variable {s : Source} {pos start stop : Nat}

theorem OnBoundary.isBoundary (h : s.OnBoundary pos) : s.isBoundary pos = true := by
  obtain ⟨cs, hrest⟩ := h
  cases cs with
  | nil =>
      have hsize : pos = s.size := hrest.size_eq.symm
      rw [Source.isBoundary, hsize, beq_self_eq_true]
      rfl
  | cons c cs =>
      obtain ⟨b, bs, hbytes, hlead⟩ := lead_of_utf8EncodeChar c
      have hbyte : s.byte? pos = some b := by
        rw [byte?_of_drop hrest.drop_bytes, bytesOf_cons, hbytes]
        rfl
      rw [Source.isBoundary, hbyte]
      simp [hlead]

theorem OnBoundary.slice? (h : s.OnBoundary start) (h' : s.OnBoundary stop) (hle : start ≤ stop) :
    s.slice? start stop = some (s.slice start stop) := by
  rw [Source.slice?, h.isBoundary, h'.isBoundary, decide_eq_true hle]
  rfl

end Source

end Text

namespace Token.Checked

open Text

/-! ## The checked lexer -/

def lineCommentEnd (s : Source) (pos : Nat) : Option Nat :=
  if pos ≤ s.size then some (Token.lineCommentEnd s pos) else none

def triviaIn (s : Source) : (n pos : Nat) → (lineBreak : Bool) → Option Trivia
  | 0, _, _ => none
  | n + 1, pos, lineBreak =>
    let c := s.charAt pos
    let d := s.charAt (pos + 1)
    if isLineBreak c then triviaIn s n (pos + 1) true
    else if isLineBlank c then triviaIn s n (pos + 1) lineBreak
    else if c == '/' && d == '/' then do triviaIn s n (← lineCommentEnd s pos) lineBreak
    else if c == '/' && d == '*' then
      match blockCommentEnd s pos with
      | some (stop, broken) => triviaIn s n stop (lineBreak || broken)
      | none => some { stop := s.size, lineBreak, unclosed := some pos }
    else if c == '\u00e2' && d == '\u0080' &&
        (s.charAt (pos + 2) == '\u00a8' || s.charAt (pos + 2) == '\u00a9') then
      triviaIn s n (pos + 3) true
    else if c == '\u00c2' && d == '\u00a0' then triviaIn s n (pos + 2) lineBreak
    else some { stop := pos, lineBreak }

def triviaAt (s : Source) (pos : Nat) : Option Trivia :=
  triviaIn s (s.size - pos + 1) pos false

def skipTriviaIn (s : Source) : (n pos : Nat) → Option Nat
  | 0, _ => none
  | n + 1, pos =>
    let c := s.charAt pos
    let d := s.charAt (pos + 1)
    if isLineBreak c || isLineBlank c then skipTriviaIn s n (pos + 1)
    else if c == '/' && d == '/' then do skipTriviaIn s n (← lineCommentEnd s pos)
    else if c == '/' && d == '*' then
      match blockCommentEnd s pos with
      | some (stop, _) => skipTriviaIn s n stop
      | none => some s.size
    else some pos

def skipTrivia (s : Source) (pos : Nat) : Option Nat :=
  skipTriviaIn s (s.size - pos + 1) pos

def expressionMayStart (s : Source) (pos : Nat) : Option Bool :=
  if pos ≤ s.size then
    match s.skipBack isAsciiSpace pos with
    | 0 => some true
    | stop + 1 =>
      let last := s.charAt stop
      if isIdentifierPart last then do
        return expressionWords.contains (← s.slice? (s.skipBack isIdentifierPart (stop + 1)) (stop + 1))
      else some (expressionMarks.contains last)
  else none

def stringEndIn (s : Source) (quote : Char) : (n pos : Nat) → Option (Option Nat)
  | 0, _ => none
  | n + 1, pos =>
    match s.find? (fun c => c == quote || c == '\\' || c == '\n') pos with
    | none => some none
    | some p =>
      if s.charAt p == '\\' then stringEndIn s quote n (p + 2)
      else if s.charAt p == '\n' then some none
      else some (some (p + 1))

def stringEnd (s : Source) (start : Nat) (quote : Char) : Option (Option Nat) :=
  stringEndIn s quote (s.size - start + 1) (start + 1)

/-- Reading on at an end that has been found. -/
def followedBy {α : Type} (stop? : Option (Option Nat)) (f : Nat → Option (Option α)) : Option (Option α) := do
  match ← stop? with
  | some stop => f stop
  | none => return none

def templateEndIn (s : Source) (group : Nat → Option (Option Nat)) :
    (n pos : Nat) → (substituted : Bool) → Option (Option (Nat × Bool))
  | 0, _, _ => none
  | n + 1, pos, substituted =>
    match s.find? (fun c => c == '`' || c == '\\' || c == '$') pos with
    | none => some none
    | some p =>
      if s.charAt p == '\\' then templateEndIn s group n (p + 2) substituted
      else if s.charAt p == '`' then some (some (p + 1, substituted))
      else if s.charAt (p + 1) == '{' then
        followedBy (group (p + 1)) fun stop => templateEndIn s group n stop true
      else templateEndIn s group n (p + 1) substituted

def templateEnd (s : Source) (group : Nat → Option (Option Nat)) (start : Nat) :
    Option (Option (Nat × Bool)) :=
  templateEndIn s group (s.size - start + 1) (start + 1) false

def regexCloseIn (s : Source) : (n pos : Nat) → (inClass : Bool) → Option (Option Nat)
  | 0, _, _ => none
  | n + 1, pos, inClass =>
    if s.size ≤ pos then some none
    else
      let c := s.charAt pos
      if isLineBreak c then some none
      else if c == '\\' then regexCloseIn s n (pos + 2) inClass
      else if c == '[' then regexCloseIn s n (pos + 1) true
      else if c == ']' then regexCloseIn s n (pos + 1) false
      else if c == '/' && !inClass then some (some pos)
      else regexCloseIn s n (pos + 1) inClass

def regexEnd (s : Source) (start : Nat) : Option (Option Nat) :=
  followedBy (regexCloseIn s (s.size - start + 1) (start + 1) false) fun close =>
    some (some (s.skipWhile isIdentifierPart (close + 1)))

def groupEndIn (s : Source) (inner : Opaque → Nat → Option (Option Nat)) :
    (n pos : Nat) → (closers : List Char) → Option (Option Nat)
  | 0, _, _ => none
  | n + 1, pos, closers =>
    if s.size ≤ pos then some none
    else
      let c := s.charAt pos
      let d := s.charAt (pos + 1)
      let go (next : Option (Option Nat)) := followedBy next fun stop => groupEndIn s inner n stop closers
      match closer? c with
      | some close => groupEndIn s inner n (pos + 1) (close :: closers)
      | none =>
        if isCloser c then
          match closers with
          | [] => some none
          | close :: rest =>
            if c != close then some none
            else if rest.isEmpty then some (some (pos + 1))
            else groupEndIn s inner n (pos + 1) rest
        else if c == '"' || c == '\'' then go (stringEnd s pos c)
        else if c == '`' then go (inner .template pos)
        else if c == '/' && d == '/' then go ((lineCommentEnd s pos).map some)
        else if c == '/' && d == '*' then go (some ((blockCommentEnd s pos).map (·.1)))
        else if c == '/' then do
          if ← expressionMayStart s pos then go (regexEnd s pos) else go (some (some (pos + 1)))
        else if c == '<' then do
          if (← expressionMayStart s pos) && (isIdentifierStart d || d == '>') then go (inner .element pos)
          else go (some (some (pos + 1)))
        else go (some (some (pos + 1)))

def childrenEndIn (s : Source) (inner : Opaque → Nat → Option (Option Nat)) :
    (n pos : Nat) → Option (Option Nat)
  | 0, _ => none
  | n + 1, pos =>
    match s.find? (fun c => c == '<' || c == '{') pos with
    | none => some none
    | some p =>
      if s.charAt p == '{' then followedBy (inner .group p) (childrenEndIn s inner n)
      else if s.charAt (p + 1) == '/' then some ((s.find? (· == '>') p).map (· + 1))
      else followedBy (inner .element p) (childrenEndIn s inner n)

def childrenEnd (s : Source) (inner : Opaque → Nat → Option (Option Nat)) (pos : Nat) :
    Option (Option Nat) :=
  childrenEndIn s inner (s.size - pos + 1) pos

def attributesEndIn (s : Source) (inner : Opaque → Nat → Option (Option Nat)) :
    (n pos : Nat) → Option (Option Nat)
  | 0, _ => none
  | n + 1, pos =>
    if s.size ≤ pos then some none
    else
      let c := s.charAt pos
      if c == '/' && s.charAt (pos + 1) == '>' then some (some (pos + 2))
      else if c == '>' then childrenEnd s inner (pos + 1)
      else if c == '{' then followedBy (inner .group pos) (attributesEndIn s inner n)
      else if c == '"' || c == '\'' then
        followedBy (some (s.find? (· == c) (pos + 1))) fun q => attributesEndIn s inner n (q + 1)
      else attributesEndIn s inner n (pos + 1)

def elementEnd (s : Source) (inner : Opaque → Nat → Option (Option Nat)) (start : Nat) :
    Option (Option Nat) :=
  if s.charAt (start + 1) == '>' then childrenEnd s inner (start + 2)
  else
    let pos := s.skipWhile isTagNamePart (start + 1)
    attributesEndIn s inner (s.size - pos + 1) pos

def opaqueEnd (s : Source) : (level : Nat) → Opaque → (pos : Nat) → Option (Option Nat)
  | 0, .template, pos => (templateEnd s (fun _ => some none) pos).map (·.map (·.1))
  | 0, _, _ => some none
  | level + 1, .group, pos => groupEndIn s (opaqueEnd s level) (s.size - pos + 1) pos []
  | level + 1, .template, pos => (templateEnd s (opaqueEnd s level .group) pos).map (·.map (·.1))
  | level + 1, .element, pos => elementEnd s (opaqueEnd s level) pos

def groupEnd (s : Source) (pos : Nat) : Option (Option Nat) :=
  opaqueEnd s (maxSkipDepth + 1) .group pos

def markupEnd (s : Source) (pos : Nat) : Option (Option Nat) :=
  opaqueEnd s (maxSkipDepth + 1) .element pos

def templateLiteralEnd (s : Source) (pos : Nat) : Option (Option (Nat × Bool)) :=
  templateEnd s (opaqueEnd s maxSkipDepth .group) pos

/-- The lexeme from `start` to `stop` whose value is its text. -/
def verbatim (s : Source) (start stop : Nat) (kind : TokenKind) : Option Lexeme := do
  return { stop, kind, value := ← s.slice? start stop }

def scanWord (s : Source) (pos : Nat) : Option Lexeme := do
  let stop := identifierEnd s pos
  let word ← s.slice? pos stop
  return { stop, value := word
           kind := match Keyword.ofSpelling? word with
             | some k => .keyword k
             | none => .identifier }

def stringContentsIn (s : Source) (quote : Char) : (n pos : Nat) → Option (Nat × Bool)
  | 0, _ => none
  | n + 1, pos =>
    if s.size < pos then none
    else
      match s.find? (fun c => c == quote || c == '\\' || c == '\n') pos with
      | none => some (s.size, false)
      | some p =>
        if s.charAt p == '\\' then
          let width := if s.charAt (p + 1) == '\r' && s.charAt (p + 2) == '\n' then 3 else 2
          stringContentsIn s quote n (min (p + width) s.size)
        else some (p, s.charAt p != '\n')

def scanString (s : Source) (start : Nat) (quote : Char) : Option Lexeme := do
  let (stop, closed) ← stringContentsIn s quote (s.size - start + 1) (start + 1)
  return { stop := if closed then stop + 1 else stop
           kind := .string
           value := Escape.decodeString (s.slice (start + 1) stop)
           error := if closed then none else
             some { start, length := stop - start, message := .unterminatedString } }

def scanTemplate (s : Source) (start : Nat) : Option Lexeme := do
  match ← templateLiteralEnd s start with
  | some (stop, true) => return { Lexeme.verbatim s (start + 1) (stop - 1) .template with stop }
  | some (stop, false) =>
    return { stop, kind := .plainTemplate
             value := Escape.decodeString (s.slice (start + 1) (stop - 1)) }
  | none =>
    return { stop := s.size, kind := .plainTemplate
             error := some { start, length := s.size - start, message := .unterminatedTemplate } }

def scanNumber (s : Source) (start : Nat) : Option Lexeme :=
  let radix := s.charAt start == '0' &&
    ['x', 'X', 'o', 'O', 'b', 'B'].contains (s.charAt (start + 1))
  let stop :=
    if radix then s.skipWhile (fun c => isHexDigit c || c == '_') (start + 2)
    else decimalEnd s start
  if s.charAt stop == 'n' then verbatim s start (stop + 1) .bigInt
  else verbatim s start stop .numeric

def scanLexeme (s : Source) (pos : Nat) : Option Lexeme :=
  let c := s.charAt pos
  let d := s.charAt (pos + 1)
  if c == '"' || c == '\'' then scanString s pos c
  else if c == '`' then scanTemplate s pos
  else if c.isDigit || (c == '.' && d.isDigit) then scanNumber s pos
  else if c == '#' && isIdentifierStart d then do
    return { ← scanWord s (pos + 1) with kind := .privateIdentifier }
  else if isIdentifierStart c then scanWord s pos
  else some (scanPunctuation s pos)

def scanAt (s : Source) (pos : Nat) : Option (Token × List LexicalError) := do
  let trivia ← triviaAt s pos
  let start := trivia.stop
  let before := trivia.unclosed.toList.map fun open_ =>
    { start := open_, length := s.size - open_, message := .unterminatedComment : LexicalError }
  if s.size ≤ start then
    return ({ start, stop := start, kind := .endOfFile, afterLineBreak := trivia.lineBreak }, before)
  else
    let lexeme ← scanLexeme s start
    return ({ start, stop := lexeme.stop, kind := lexeme.kind, value := lexeme.value
              afterLineBreak := trivia.lineBreak },
            before ++ lexeme.error.toList)

def asRegex (s : Source) (t : Token) : Option (Token × List LexicalError) :=
  if t.kind == .punct .slash || t.kind == .assign .slashEquals then do
    match ← regexEnd s t.start with
    | some stop => return ({ t with stop, kind := .regex, value := ← s.slice? t.start stop }, [])
    | none =>
      let stop ← lineCommentEnd s t.start
      return ({ t with stop, kind := .regex },
        [{ start := t.start, length := stop - t.start, message := .unterminatedRegex }])
  else some (t, [])

/-! ## Blanks and comments -/

variable {s : Source} {pos start stop n m : Nat}

theorem lineCommentEnd_eq (h : pos ≤ s.size) : lineCommentEnd s pos = some (Token.lineCommentEnd s pos) :=
  if_pos h

/-- A line comment is looked for only at its first slash. -/
theorem lineCommentEnd_slash (h : s.charAt pos = '/') :
    lineCommentEnd s pos = some (Token.lineCommentEnd s pos) :=
  lineCommentEnd_eq (Nat.le_of_lt (Source.lt_size_of_charAt (by rw [h]; decide)))

theorem triviaIn_eq {lineBreak : Bool} (hn : s.size - pos < n) (hm : s.size - pos ≤ m) :
    triviaIn s n pos lineBreak = some (Token.triviaIn s m pos lineBreak) := by
  induction n generalizing pos m lineBreak with
  | zero => exact absurd hn (Nat.not_lt_zero _)
  | succ n ih =>
      by_cases hsize : s.size ≤ pos
      · have hnul := Source.charAt_of_size_le hsize
        cases m <;> rw [triviaIn, Token.triviaIn, hnul] <;> rfl
      obtain _ | m := m
      · omega
      have later {pos' : Nat} {lineBreak' : Bool} (hlt : pos < pos') :
          triviaIn s n pos' lineBreak' = some (Token.triviaIn s m pos' lineBreak') :=
        ih (by omega) (by omega)
      rw [triviaIn, Token.triviaIn]
      split
      · exact later (Nat.lt_succ_self pos)
      split
      · exact later (Nat.lt_succ_self pos)
      split
      · rename_i hslash
        have hslash : s.charAt pos = '/' := eq_of_beq (Bool.and_eq_true_iff.mp hslash).1
        rw [lineCommentEnd_slash hslash]
        exact later (lt_lineCommentEnd hslash)
      split
      · cases hblock : blockCommentEnd s pos with
        | none => rfl
        | some found => exact later (blockCommentEnd_ends s pos found.1 (by rw [hblock]; rfl)).1
      split
      · exact later (by omega)
      split
      · exact later (by omega)
      · rfl

theorem skipTriviaIn_eq (hn : s.size - pos < n) (hm : s.size - pos ≤ m) :
    skipTriviaIn s n pos = some (Token.skipTriviaIn s m pos) := by
  induction n generalizing pos m with
  | zero => exact absurd hn (Nat.not_lt_zero _)
  | succ n ih =>
      by_cases hsize : s.size ≤ pos
      · have hnul := Source.charAt_of_size_le hsize
        cases m <;> rw [skipTriviaIn, Token.skipTriviaIn, hnul] <;> rfl
      obtain _ | m := m
      · omega
      have later {pos' : Nat} (hlt : pos < pos') :
          skipTriviaIn s n pos' = some (Token.skipTriviaIn s m pos') :=
        ih (by omega) (by omega)
      rw [skipTriviaIn, Token.skipTriviaIn]
      split
      · exact later (Nat.lt_succ_self pos)
      split
      · rename_i hslash
        have hslash : s.charAt pos = '/' := eq_of_beq (Bool.and_eq_true_iff.mp hslash).1
        rw [lineCommentEnd_slash hslash]
        exact later (lt_lineCommentEnd hslash)
      split
      · cases hblock : blockCommentEnd s pos with
        | none => rfl
        | some found => exact later (blockCommentEnd_ends s pos found.1 (by rw [hblock]; rfl)).1
      · rfl

theorem skipTrivia_eq (s : Source) (pos : Nat) : skipTrivia s pos = some (Token.skipTrivia s pos) :=
  skipTriviaIn_eq (Nat.lt_succ_self _) (Nat.le_refl _)

/-! ## Text that is stepped over -/

/-- Looking back from a byte of ASCII cuts out whole characters. -/
theorem expressionMayStart_eq (hpos : pos < s.size) (hc : (s.charAt pos).toNat < 0x80) :
    expressionMayStart s pos = some (Token.expressionMayStart s pos) := by
  have hspace : ∀ c, isAsciiSpace c = true → c.toNat < 0x80 := by
    intro c hspace
    simp only [isAsciiSpace, Bool.or_eq_true, beq_iff_eq] at hspace
    rcases hspace with (((rfl | rfl) | rfl) | rfl) | rfl <;> decide
  have hbound := (Source.onBoundary_of_ascii hpos hc).skipBack_ascii hspace
  rw [expressionMayStart, if_pos (Nat.le_of_lt hpos), Token.expressionMayStart]
  cases hback : s.skipBack isAsciiSpace pos with
  | zero => rfl
  | succ stop =>
      rw [hback] at hbound
      have hstart : s.OnBoundary (s.skipBack isIdentifierPart (stop + 1)) :=
        Source.onBoundary_skipBack_of_wide (fun _ => Source.isIdentifierPart_of_le) hbound.le
      have hle : s.skipBack isIdentifierPart (stop + 1) ≤ stop + 1 := (Source.skipBack_spec _).1
      dsimp only
      split
      · rw [hstart.slice? hbound hle]
        rfl
      · rfl

theorem followedBy_eq {α : Type} {stop? : Option Nat} {f : Nat → Option (Option α)} {g : Nat → Option α}
    (h : ∀ stop, stop? = some stop → f stop = some (g stop)) :
    followedBy (some stop?) f = some (stop? >>= g) := by
  cases stop? with
  | none => rfl
  | some stop => exact h stop rfl

theorem stringEndIn_eq {quote : Char} (hn : s.size - pos < n) (hm : s.size - pos ≤ m) :
    stringEndIn s quote n pos = some (Token.stringEndIn s quote m pos) := by
  induction n generalizing pos m with
  | zero => exact absurd hn (Nat.not_lt_zero _)
  | succ n ih =>
      rw [stringEndIn]
      cases hfind : s.find? (fun c => c == quote || c == '\\' || c == '\n') pos with
      | none =>
          cases m with
          | zero => rfl
          | succ m =>
              rw [Token.stringEndIn, hfind]
              rfl
      | some p =>
          obtain ⟨hle, hlt, -⟩ := Source.find?_eq_some hfind
          obtain _ | m := m
          · omega
          rw [Token.stringEndIn, hfind]
          change (if _ then _ else _) = some (if _ then _ else _)
          split
          · exact ih (by omega) (by omega)
          · split <;> rfl

theorem stringEnd_eq (s : Source) (start : Nat) (quote : Char) :
    stringEnd s start quote = some (Token.stringEnd s start quote) :=
  stringEndIn_eq (by omega) (by omega)

section

variable {group : Nat → Option Nat} {group' : Nat → Option (Option Nat)}

theorem templateEndIn_eq (hgroup : ∀ p, group' p = some (group p)) (hends : ∀ p, EndsAfter s p (group p))
    {substituted : Bool} (hn : s.size - pos < n) (hm : s.size - pos ≤ m) :
    templateEndIn s group' n pos substituted = some (Token.templateEndIn s group m pos substituted) := by
  induction n generalizing pos m substituted with
  | zero => exact absurd hn (Nat.not_lt_zero _)
  | succ n ih =>
      rw [templateEndIn]
      cases hfind : s.find? (fun c => c == '`' || c == '\\' || c == '$') pos with
      | none =>
          cases m with
          | zero => rfl
          | succ m =>
              rw [Token.templateEndIn, hfind]
              rfl
      | some p =>
          obtain ⟨hle, hlt, -⟩ := Source.find?_eq_some hfind
          obtain _ | m := m
          · omega
          rw [Token.templateEndIn, hfind]
          change (if _ then _ else _) = some (if _ then _ else _)
          split
          · exact ih (by omega) (by omega)
          split
          · rfl
          split
          · rw [hgroup]
            refine followedBy_eq fun stop hstop => ?_
            have hlt := (hends _ stop hstop).1
            exact ih (by omega) (by omega)
          · exact ih (by omega) (by omega)

theorem templateEnd_eq (hgroup : ∀ p, group' p = some (group p)) (hends : ∀ p, EndsAfter s p (group p))
    (start : Nat) : templateEnd s group' start = some (Token.templateEnd s group start) :=
  templateEndIn_eq hgroup hends (by omega) (by omega)

end

theorem regexCloseIn_eq {inClass : Bool} (hn : s.size - pos < n) (hm : s.size - pos ≤ m) :
    regexCloseIn s n pos inClass = some (Token.regexCloseIn s m pos inClass) := by
  induction n generalizing pos m inClass with
  | zero => exact absurd hn (Nat.not_lt_zero _)
  | succ n ih =>
      rw [regexCloseIn]
      split
      · rename_i hsize
        cases m with
        | zero => rfl
        | succ m => rw [Token.regexCloseIn, if_pos hsize]
      · rename_i hsize
        obtain _ | m := m
        · omega
        rw [Token.regexCloseIn, if_neg hsize]
        dsimp only
        split
        · rfl
        split
        · exact ih (by omega) (by omega)
        split
        · exact ih (by omega) (by omega)
        split
        · exact ih (by omega) (by omega)
        split
        · rfl
        · exact ih (by omega) (by omega)

theorem regexEnd_eq (s : Source) (start : Nat) : regexEnd s start = some (Token.regexEnd s start) := by
  rw [regexEnd, regexCloseIn_eq (m := s.size - start) (by omega) (by omega), Token.regexEnd]
  cases Token.regexCloseIn s (s.size - start) (start + 1) false <;> rfl

section

variable {inner : Opaque → Nat → Option Nat} {inner' : Opaque → Nat → Option (Option Nat)}
variable (hinner : ∀ o p, inner' o p = some (inner o p)) (hends : ∀ o p, EndsAfter s p (inner o p))

include hinner hends

theorem groupEndIn_eq {closers : List Char} (hn : s.size - pos < n) (hm : s.size - pos ≤ m) :
    groupEndIn s inner' n pos closers = some (Token.groupEndIn s inner m pos closers) := by
  induction n generalizing pos m closers with
  | zero => exact absurd hn (Nat.not_lt_zero _)
  | succ n ih =>
      rw [groupEndIn]
      split
      · rename_i hsize
        cases m with
        | zero => rfl
        | succ m => rw [Token.groupEndIn, if_pos hsize]
      rename_i hsize
      obtain _ | m := m
      · omega
      rw [Token.groupEndIn, if_neg hsize]
      have next {closers : List Char} :
          groupEndIn s inner' n (pos + 1) closers = some (Token.groupEndIn s inner m (pos + 1) closers) :=
        ih (by omega) (by omega)
      have later {stop? : Option Nat} (hstop : EndsAfter s pos stop?) :
          followedBy (some stop?) (fun stop => groupEndIn s inner' n stop closers) =
            some (stop? >>= fun stop => Token.groupEndIn s inner m stop closers) :=
        followedBy_eq fun stop heq => by
          have hlt := (hstop stop heq).1
          exact ih (by omega) (by omega)
      dsimp only
      cases closer? (s.charAt pos) with
      | some close => exact next
      | none =>
      dsimp only
      split
      · cases closers with
        | nil => rfl
        | cons close rest =>
            dsimp only
            split
            · rfl
            split
            · rfl
            · exact next
      split
      · rename_i hquote
        rw [stringEnd_eq]
        exact later (stringEnd_ends_quote hquote)
      split
      · rw [hinner]
        exact later (hends _ _)
      split
      · rename_i hcomment
        have hslash := eq_of_beq (Bool.and_eq_true_iff.mp hcomment).1
        rw [lineCommentEnd_slash hslash]
        exact later (lineCommentEnd_ends hslash)
      split
      · exact later (blockCommentEnd_ends s pos)
      cases hslash : s.charAt pos == '/' with
      | true =>
          have hascii : (s.charAt pos).toNat < 0x80 := by rw [eq_of_beq hslash]; decide
          have hangle : (s.charAt pos == '<') = false := by rw [eq_of_beq hslash]; decide
          rw [if_pos rfl, expressionMayStart_eq (Nat.lt_of_not_le hsize) hascii, hangle]
          cases hmay : Token.expressionMayStart s pos with
          | true =>
              rw [Option.bind_eq_bind, Option.bind_some, if_pos rfl, regexEnd_eq]
              exact later (regexEnd_ends s pos)
          | false => exact next
      | false =>
          cases hangle : s.charAt pos == '<' with
          | true =>
              have hascii : (s.charAt pos).toNat < 0x80 := by rw [eq_of_beq hangle]; decide
              rw [if_neg Bool.false_ne_true, if_pos rfl,
                expressionMayStart_eq (Nat.lt_of_not_le hsize) hascii]
              cases Token.expressionMayStart s pos with
              | false => exact next
              | true =>
                  simp only [Option.bind_eq_bind, Option.bind_some, Bool.true_and]
                  split
                  · rw [hinner]
                    exact later (hends _ _)
                  · exact next
          | false => exact next

theorem childrenEndIn_eq (hn : s.size - pos < n) (hm : s.size - pos ≤ m) :
    childrenEndIn s inner' n pos = some (Token.childrenEndIn s inner m pos) := by
  induction n generalizing pos m with
  | zero => exact absurd hn (Nat.not_lt_zero _)
  | succ n ih =>
      rw [childrenEndIn]
      cases hfind : s.find? (fun c => c == '<' || c == '{') pos with
      | none =>
          cases m with
          | zero => rfl
          | succ m =>
              rw [Token.childrenEndIn, hfind]
              rfl
      | some p =>
          obtain ⟨hle, hlt, -⟩ := Source.find?_eq_some hfind
          obtain _ | m := m
          · omega
          have later (o : Opaque) : followedBy (inner' o p) (childrenEndIn s inner' n) =
              some (inner o p >>= Token.childrenEndIn s inner m) := by
            rw [hinner]
            refine followedBy_eq fun stop hstop => ?_
            have hlt := (hends _ _ stop hstop).1
            exact ih (by omega) (by omega)
          rw [Token.childrenEndIn, hfind]
          change (if _ then _ else _) = some (if _ then _ else _)
          split
          · exact later .group
          split
          · cases s.find? (· == '>') p <;> rfl
          · exact later .element

theorem childrenEnd_eq (pos : Nat) :
    childrenEnd s inner' pos = some (Token.childrenEnd s inner pos) :=
  childrenEndIn_eq hinner hends (Nat.lt_succ_self _) (Nat.le_refl _)

theorem attributesEndIn_eq (hn : s.size - pos < n) (hm : s.size - pos ≤ m) :
    attributesEndIn s inner' n pos = some (Token.attributesEndIn s inner m pos) := by
  induction n generalizing pos m with
  | zero => exact absurd hn (Nat.not_lt_zero _)
  | succ n ih =>
      rw [attributesEndIn]
      split
      · rename_i hsize
        cases m with
        | zero => rfl
        | succ m => rw [Token.attributesEndIn, if_pos hsize]
      rename_i hsize
      obtain _ | m := m
      · omega
      rw [Token.attributesEndIn, if_neg hsize]
      dsimp only
      split
      · rfl
      split
      · exact childrenEnd_eq hinner hends (pos + 1)
      split
      · rw [hinner]
        refine followedBy_eq fun stop hstop => ?_
        have hlt := (hends _ _ stop hstop).1
        exact ih (by omega) (by omega)
      split
      · refine followedBy_eq fun q hq => ?_
        obtain ⟨hle, -, -⟩ := Source.find?_eq_some hq
        exact ih (by omega) (by omega)
      · exact ih (by omega) (by omega)

theorem elementEnd_eq (start : Nat) : elementEnd s inner' start = some (Token.elementEnd s inner start) := by
  rw [elementEnd, Token.elementEnd]
  split
  · exact childrenEnd_eq hinner hends (start + 2)
  · exact attributesEndIn_eq hinner hends (Nat.lt_succ_self _) (Nat.le_refl _)

end

theorem opaqueEnd_eq (s : Source) (level : Nat) (o : Opaque) (pos : Nat) :
    opaqueEnd s level o pos = some (Token.opaqueEnd s level o pos) := by
  induction level generalizing o pos with
  | zero =>
      cases o with
      | template =>
          rw [opaqueEnd, templateEnd_eq (fun _ => rfl) fun _ => endsAfter_none]
          rfl
      | group => rfl
      | element => rfl
  | succ level ih =>
      have hends := opaqueEnd_ends s level
      cases o with
      | group => exact groupEndIn_eq ih hends (Nat.lt_succ_self _) (Nat.le_refl _)
      | template =>
          rw [opaqueEnd, templateEnd_eq (ih .group) (hends .group)]
          rfl
      | element => exact elementEnd_eq ih hends pos

theorem groupEnd_eq (s : Source) (pos : Nat) : groupEnd s pos = some (Token.groupEnd s pos) :=
  opaqueEnd_eq s _ _ pos

theorem markupEnd_eq (s : Source) (pos : Nat) : markupEnd s pos = some (Token.markupEnd s pos) :=
  opaqueEnd_eq s _ _ pos

theorem templateLiteralEnd_eq (s : Source) (pos : Nat) :
    templateLiteralEnd s pos = some (Token.templateLiteralEnd s pos) :=
  templateEnd_eq (opaqueEnd_eq s _ _) (opaqueEnd_ends s _ _) pos

/-! ## Tokens -/

theorem verbatim_eq {kind : TokenKind} (hstart : s.OnBoundary start) (hstop : s.OnBoundary stop)
    (hle : start ≤ stop) : verbatim s start stop kind = some (.verbatim s start stop kind) := by
  rw [verbatim, hstart.slice? hstop hle]
  rfl

theorem scanWord_eq (hpos : s.OnBoundary pos) : scanWord s pos = some (Token.scanWord s pos) := by
  have hstop : s.OnBoundary (identifierEnd s pos) := (scanWord_between hpos).1
  rw [scanWord, hpos.slice? hstop (s.le_skipWhile _ _)]
  rfl

theorem stringContentsIn_eq {quote : Char} (hpos : pos ≤ s.size) (hn : s.size - pos < n)
    (hm : s.size - pos ≤ m) :
    stringContentsIn s quote n pos = some (Token.stringContentsIn s quote m pos) := by
  induction n generalizing pos m with
  | zero => exact absurd hn (Nat.not_lt_zero _)
  | succ n ih =>
      rw [stringContentsIn, if_neg (Nat.not_lt_of_le hpos)]
      cases hfind : s.find? (fun c => c == quote || c == '\\' || c == '\n') pos with
      | none =>
          cases m with
          | zero => rfl
          | succ m => rw [Token.stringContentsIn, hfind]
      | some p =>
          obtain ⟨hle, hlt, -⟩ := Source.find?_eq_some hfind
          obtain _ | m := m
          · omega
          rw [Token.stringContentsIn, hfind]
          dsimp only
          split
          · split <;> exact ih (Nat.min_le_right _ _) (by omega) (by omega)
          · rfl

theorem scanString_eq {quote : Char} (hpos : pos < s.size) :
    scanString s pos quote = some (Token.scanString s pos quote) := by
  rw [scanString, stringContentsIn_eq (m := s.size - pos) hpos (by omega) (by omega)]
  rfl

theorem scanTemplate_eq (s : Source) (pos : Nat) : scanTemplate s pos = some (Token.scanTemplate s pos) := by
  rw [scanTemplate, templateLiteralEnd_eq, Token.scanTemplate]
  rcases Token.templateLiteralEnd s pos with _ | ⟨stop, _ | _⟩ <;> rfl

theorem scanNumber_eq (hpos : s.OnBoundary pos) (h : (s.charAt pos).isDigit = true ∨ s.charAt pos = '.') :
    scanNumber s pos = some (Token.scanNumber s pos) := by
  have number {stop : Nat}
      (hfits : (if s.charAt stop == 'n' then Lexeme.verbatim s pos (stop + 1) .bigInt
        else Lexeme.verbatim s pos stop .numeric).Fits s pos) :
      (if s.charAt stop == 'n' then verbatim s pos (stop + 1) .bigInt else verbatim s pos stop .numeric) =
        some (if s.charAt stop == 'n' then Lexeme.verbatim s pos (stop + 1) .bigInt
          else Lexeme.verbatim s pos stop .numeric) := by
    split
    · rename_i hn
      rw [if_pos hn] at hfits
      exact verbatim_eq hpos hfits.stop (Nat.le_of_lt hfits.lt)
    · rename_i hn
      rw [if_neg hn] at hfits
      exact verbatim_eq hpos hfits.stop (Nat.le_of_lt hfits.lt)
  exact number (scanNumber_fits hpos h)

theorem scanLexeme_eq (hpos : s.OnBoundary pos) (hlt : pos < s.size) :
    scanLexeme s pos = some (Token.scanLexeme s pos) := by
  rw [scanLexeme, Token.scanLexeme]
  split
  · exact scanString_eq hlt
  split
  · exact scanTemplate_eq s pos
  split
  · rename_i hdigit
    rw [Bool.or_eq_true, Bool.and_eq_true, beq_iff_eq] at hdigit
    exact scanNumber_eq hpos (hdigit.imp_right And.left)
  split
  · rename_i hhash
    rw [Bool.and_eq_true, beq_iff_eq] at hhash
    rw [scanWord_eq (Source.onBoundary_of_charAt hhash.1 (by decide)).2.2]
    rfl
  split
  · exact scanWord_eq hpos
  · rfl

/-- From a character boundary the checked lexer gives the token that the lexer gives. -/
theorem scanAt_eq (hpos : s.OnBoundary pos) : scanAt s pos = some (Token.scanAt s pos) := by
  have htrivia : triviaAt s pos = some (Token.triviaAt s pos) :=
    triviaIn_eq (Nat.lt_succ_self _) (Nat.le_refl _)
  rw [scanAt, htrivia, Token.scanAt]
  change (if _ then _ else _) = some (if _ then _ else _)
  split
  · rfl
  · rename_i hsize
    have hstart : s.OnBoundary (Token.triviaAt s pos).stop := (triviaIn_spec hpos).2
    rw [scanLexeme_eq hstart (Nat.lt_of_not_le hsize)]
    rfl

theorem asRegex_eq {t : Token} (hstart : s.OnBoundary t.start) : asRegex s t = some (t.asRegex s) := by
  rw [asRegex, Token.asRegex]
  split
  · rw [regexEnd_eq]
    cases hstop : Token.regexEnd s t.start with
    | none =>
        rw [Option.bind_eq_bind, Option.bind_some, lineCommentEnd_eq hstart.le]
        rfl
    | some stop =>
        obtain ⟨hlt, hbound⟩ := regexEnd_ends s t.start stop hstop
        rw [Option.bind_eq_bind, Option.bind_some]
        dsimp only
        rw [hstart.slice? hbound (Nat.le_of_lt hlt)]
        rfl
  · rfl

end Token.Checked

end PropContract
