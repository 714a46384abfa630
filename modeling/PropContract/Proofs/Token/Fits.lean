import PropContract.Parse.State
import PropContract.Proofs.Token.Ends

/-!
# Tokens fit their text

A token scanned from a character boundary begins and ends on boundaries, is not empty before the end
of the text, and stands for the text it covers unless an error is recorded for it.
-/

namespace PropContract

open Text

/-- Whether the text between two offsets is how a token of a kind with a value is written. -/
def TokenKind.Spells (src : Source) (start stop : Nat) (value : String) : TokenKind → Prop
  | .identifier | .keyword _ | .numeric | .bigInt | .regex => src.Between start stop value
  | .privateIdentifier => src.Between start stop ("#" ++ value)
  | .string =>
    ∃ quote raw, (quote = "\"" ∨ quote = "'") ∧ src.Between start stop (quote ++ raw ++ quote) ∧
      value = Escape.decodeString raw
  | .plainTemplate =>
    ∃ raw, src.Between start stop ("`" ++ raw ++ "`") ∧ value = Escape.decodeString raw
  | .template => src.Between start stop ("`" ++ value ++ "`")
  | _ => True

namespace Token

/-- Whether a token covers whole characters, of which there are none only at the end of the text. A
mark stands where its token begins. -/
structure Fits (src : Source) (t : Token) : Prop where
  start : src.OnBoundary t.start
  stop : src.OnBoundary t.stop
  le : t.start ≤ t.stop
  full : t.kind ≠ .endOfFile → t.start < t.stop
  atEnd : t.kind = .endOfFile → t.start = src.size
  mark : ∀ row ∈ TokenKind.punctuation, row.2 = t.kind → src.holdsAt t.start row.1 = true

def Spelled (src : Source) (t : Token) : Prop :=
  t.kind.Spells src t.start t.stop t.value

variable {s : Source} {pos n : Nat}

/-! ## Blanks and comments -/

theorem onBoundary_succ_of_blank (h : isLineBreak (s.charAt pos) = true ∨ isLineBlank (s.charAt pos) = true) :
    s.OnBoundary (pos + 1) := by
  refine (Source.onBoundary_of_charAt rfl ?_).2.2
  rcases h with h | h
  · exact ascii_of_isLineBreak h
  · simp only [isLineBlank, Bool.or_eq_true, beq_iff_eq] at h
    rcases h with ((h | h) | h) | h <;> rw [h] <;> decide

theorem triviaIn_spec {lineBreak : Bool} (h : s.OnBoundary pos) :
    pos ≤ (triviaIn s n pos lineBreak).stop ∧ s.OnBoundary (triviaIn s n pos lineBreak).stop := by
  induction n generalizing pos lineBreak with
  | zero => exact ⟨Nat.le_refl _, h⟩
  | succ n ih =>
      have later {pos' : Nat} {lineBreak' : Bool} (hle : pos ≤ pos') (h' : s.OnBoundary pos') :
          pos ≤ (triviaIn s n pos' lineBreak').stop ∧
            s.OnBoundary (triviaIn s n pos' lineBreak').stop :=
        ⟨Nat.le_trans hle (ih h').1, (ih h').2⟩
      rw [triviaIn]
      split
      · rename_i hblank
        exact later (Nat.le_succ _) (onBoundary_succ_of_blank (.inl hblank))
      · split
        · rename_i hblank
          exact later (Nat.le_succ _) (onBoundary_succ_of_blank (.inr hblank))
        · split
          · rename_i hcomment
            simp only [Bool.and_eq_true, beq_iff_eq] at hcomment
            exact later (Nat.le_of_lt (lt_lineCommentEnd hcomment.1)) (onBoundary_lineCommentEnd s pos)
          · split
            · split
              · rename_i stop broken hblock
                obtain ⟨hlt, hbound⟩ := blockCommentEnd_ends s pos stop (by rw [hblock]; rfl)
                exact later (Nat.le_of_lt hlt) hbound
              · exact ⟨h.le, s.onBoundary_size⟩
            · split
              · rename_i hseparator
                simp only [Bool.and_eq_true, beq_iff_eq] at hseparator
                have hpos : pos < s.size :=
                  Source.lt_size_of_charAt (by rw [hseparator.1.1]; decide)
                exact later (by omega) ((h.add_of_lead hpos).2 hseparator.1.1)
              · split
                · rename_i hspace
                  simp only [Bool.and_eq_true, beq_iff_eq] at hspace
                  have hpos : pos < s.size := Source.lt_size_of_charAt (by rw [hspace.1]; decide)
                  exact later (by omega) ((h.add_of_lead hpos).1 hspace.1)
                · exact ⟨Nat.le_refl _, h⟩

theorem skipTriviaIn_spec (h : s.OnBoundary pos) :
    pos ≤ skipTriviaIn s n pos ∧ s.OnBoundary (skipTriviaIn s n pos) := by
  induction n generalizing pos with
  | zero => exact ⟨Nat.le_refl _, h⟩
  | succ n ih =>
      have later {pos' : Nat} (hle : pos ≤ pos') (h' : s.OnBoundary pos') :
          pos ≤ skipTriviaIn s n pos' ∧ s.OnBoundary (skipTriviaIn s n pos') :=
        ⟨Nat.le_trans hle (ih h').1, (ih h').2⟩
      rw [skipTriviaIn]
      split
      · rename_i hblank
        rw [Bool.or_eq_true] at hblank
        exact later (Nat.le_succ _) (onBoundary_succ_of_blank hblank)
      · split
        · rename_i hcomment
          simp only [Bool.and_eq_true, beq_iff_eq] at hcomment
          exact later (Nat.le_of_lt (lt_lineCommentEnd hcomment.1)) (onBoundary_lineCommentEnd s pos)
        · split
          · split
            · rename_i stop broken hblock
              obtain ⟨hlt, hbound⟩ := blockCommentEnd_ends s pos stop (by rw [hblock]; rfl)
              exact later (Nat.le_of_lt hlt) hbound
            · exact ⟨h.le, s.onBoundary_size⟩
          · exact ⟨Nat.le_refl _, h⟩

/-! ## Lexemes -/

/-- Whether what a scanning rule finds at an offset covers whole characters, and is written as it
should be if there is no error. -/
structure Lexeme.Fits (src : Source) (pos : Nat) (l : Lexeme) : Prop where
  lt : pos < l.stop
  stop : src.OnBoundary l.stop
  kind : l.kind ≠ .endOfFile
  mark : ∀ row ∈ TokenKind.punctuation, row.2 = l.kind → src.holdsAt pos row.1 = true
  spells : l.error = none → l.kind.Spells src pos l.stop l.value

/-- Marks are no words and no literals, and are written in ASCII. -/
theorem punctuation_spec : ∀ row ∈ TokenKind.punctuation,
    ((∃ p, row.2 = .punct p) ∨ ∃ op, row.2 = .assign op) ∧ row.1 ≠ [] ∧
      ∀ b ∈ row.1, 0 < b.toNat ∧ b.toNat < 0x80 := by
  have hkind : ∀ row ∈ TokenKind.punctuation,
      (match row.2 with | .punct _ | .assign _ => true | _ => false) = true ∧ row.1 ≠ [] ∧
        row.1.all (fun b => decide (0 < b.toNat ∧ b.toNat < 0x80)) = true := by
    decide +kernel
  intro row hrow
  obtain ⟨hkind, hne, hascii⟩ := hkind row hrow
  refine ⟨?_, hne, fun b hb => of_decide_eq_true (List.all_eq_true.mp hascii b hb)⟩
  split at hkind
  · exact .inl ⟨_, ‹_›⟩
  · exact .inr ⟨_, ‹_›⟩
  · simp at hkind

theorem no_mark {src : Source} {kind : TokenKind} (h : ∀ p, kind ≠ .punct p)
    (h' : ∀ op, kind ≠ .assign op) :
    ∀ row ∈ TokenKind.punctuation, row.2 = kind → src.holdsAt pos row.1 = true := by
  intro row hrow heq
  obtain ⟨⟨p, hp⟩ | ⟨op, hop⟩, -⟩ := punctuation_spec row hrow
  · exact absurd (heq.symm.trans hp) (h p)
  · exact absurd (heq.symm.trans hop) (h' op)

/-- Characters of ASCII that stand somewhere end on a boundary. -/
theorem onBoundary_of_holdsAt {w : List UInt8} (hpos : s.OnBoundary pos)
    (hw : ∀ b ∈ w, 0 < b.toNat ∧ b.toNat < 0x80) (h : s.holdsAt pos w = true) :
    s.OnBoundary (pos + w.length) := by
  induction w generalizing pos with
  | nil => exact hpos
  | cons b w ih =>
      rw [Source.holdsAt, Bool.and_eq_true, beq_iff_eq] at h
      have hchar : s.charAt pos = Char.ofUInt8 b := by
        rw [Source.charAt, h.1]
        rfl
      have hnext := ih (Source.onBoundary_of_charAt hchar (hw b List.mem_cons_self)).2.2
        (fun x hx => hw x (List.mem_cons_of_mem _ hx)) h.2
      rwa [List.length_cons, Nat.add_comm w.length, ← Nat.add_assoc]

theorem lt_identifierEnd (hpos : pos < s.size) (h : isIdentifierStart (s.charAt pos) = true) :
    pos < identifierEnd s pos :=
  Source.lt_skipWhile hpos (by rw [isIdentifierPart, h, Bool.true_or])

/-- The word at an offset is what stands there, up to where no word goes on. -/
theorem scanWord_between (hpos : s.OnBoundary pos) :
    s.OnBoundary (scanWord s pos).stop ∧ s.Between pos (scanWord s pos).stop (scanWord s pos).value := by
  have hstop : s.OnBoundary (identifierEnd s pos) :=
    Source.onBoundary_skipWhile_of_wide (fun _ => Source.isIdentifierPart_of_le) hpos.le
  exact ⟨hstop, hpos.between_slice hstop (s.le_skipWhile _ _)⟩

theorem scanWord_fits (hpos : s.OnBoundary pos) (hlt : pos < s.size)
    (h : isIdentifierStart (s.charAt pos) = true) : (scanWord s pos).Fits s pos := by
  obtain ⟨hstop, hbetween⟩ := scanWord_between hpos
  have hkind : (scanWord s pos).kind = .identifier ∨ ∃ k, (scanWord s pos).kind = .keyword k := by
    rw [scanWord]
    dsimp only
    split
    · exact .inr ⟨_, rfl⟩
    · exact .inl rfl
  refine ⟨lt_identifierEnd hlt h, hstop, ?_, ?_, fun _ => ?_⟩
  · rcases hkind with h | ⟨k, h⟩ <;> rw [h] <;> exact TokenKind.noConfusion
  · rcases hkind with h | ⟨k, h⟩ <;> rw [h] <;>
      exact no_mark (fun _ => TokenKind.noConfusion) (fun _ => TokenKind.noConfusion)
  · rcases hkind with h | ⟨k, h⟩ <;> rw [h] <;> exact hbetween

theorem scanPrivate_fits (hhash : s.charAt pos = '#') :
    ({ scanWord s (pos + 1) with kind := .privateIdentifier } : Lexeme).Fits s pos := by
  obtain ⟨hlt, hpos, hnext⟩ := Source.onBoundary_of_charAt hhash (by decide)
  obtain ⟨hstop, hbetween⟩ := scanWord_between hnext
  refine ⟨Nat.lt_of_succ_le (s.le_skipWhile _ _), hstop, TokenKind.noConfusion,
    no_mark (fun _ => TokenKind.noConfusion) (fun _ => TokenKind.noConfusion), fun _ => ?_⟩
  exact (Source.between_singleton hhash (by decide)).append hbetween

/-! ### Strings and templates -/

theorem stringContentsIn_spec {quote : Char} (hpos : pos ≤ s.size) :
    pos ≤ (stringContentsIn s quote n pos).1 ∧
      ((stringContentsIn s quote n pos).2 = true →
        s.charAt (stringContentsIn s quote n pos).1 = quote) ∧
      ((stringContentsIn s quote n pos).2 = false →
        s.OnBoundary (stringContentsIn s quote n pos).1) := by
  induction n generalizing pos with
  | zero => exact ⟨hpos, fun h => Bool.noConfusion h, fun _ => s.onBoundary_size⟩
  | succ n ih =>
      rw [stringContentsIn]
      split
      · exact ⟨hpos, fun h => Bool.noConfusion h, fun _ => s.onBoundary_size⟩
      · rename_i p hp
        obtain ⟨hle, hlt, hmark⟩ := Source.find?_eq_some hp
        split
        · refine ⟨Nat.le_trans ?_ (ih (Nat.min_le_right _ _)).1, (ih (Nat.min_le_right _ _)).2⟩
          omega
        · rename_i hbackslash
          refine ⟨hle, fun hclosed => ?_, fun hopen => ?_⟩
          · simp only [bne_iff_ne, ne_eq] at hclosed
            simp only [Bool.or_eq_true, beq_iff_eq] at hmark hbackslash
            rcases hmark with (h | h) | h
            · exact h
            · exact absurd h hbackslash
            · exact absurd h hclosed
          · simp only [bne_eq_false_iff_eq] at hopen
            exact (Source.onBoundary_of_charAt hopen (by decide)).2.1

theorem scanString_fits {quote : Char} (hquote : quote = '"' ∨ quote = '\'')
    (h : s.charAt pos = quote) : (scanString s pos quote).Fits s pos := by
  have hascii : 0 < quote.toNat ∧ quote.toNat < 0x80 := by
    rcases hquote with rfl | rfl <;> decide
  obtain ⟨hlt, -, -⟩ := Source.onBoundary_of_charAt h hascii
  obtain ⟨hle, hclosed, hopen⟩ :=
    @stringContentsIn_spec s (pos + 1) (s.size - pos) quote hlt
  rw [scanString]
  generalize stringContentsIn s quote (s.size - pos) (pos + 1) = found at hle hclosed hopen ⊢
  obtain ⟨stop, closed⟩ := found
  have hmark : ∀ row ∈ TokenKind.punctuation, row.2 = .string → s.holdsAt pos row.1 = true :=
    no_mark (fun _ => TokenKind.noConfusion) (fun _ => TokenKind.noConfusion)
  cases closed with
  | false =>
      exact ⟨hle, hopen rfl, TokenKind.noConfusion, hmark, fun herror => by cases herror⟩
  | true =>
      have hstop := hclosed rfl
      refine ⟨Nat.lt_succ_of_lt hle, (Source.onBoundary_of_charAt hstop hascii).2.2,
        TokenKind.noConfusion, hmark, fun _ => ?_⟩
      refine ⟨String.singleton quote, s.slice (pos + 1) stop, ?_,
        Source.between_marks h hstop hascii hle, rfl⟩
      rcases hquote with rfl | rfl
      · exact .inl rfl
      · exact .inr rfl

theorem templateLiteralEnd_spec {found : Nat × Bool} (h : templateLiteralEnd s pos = some found) :
    ∃ close, pos + 1 ≤ close ∧ s.charAt close = '`' ∧ found.1 = close + 1 := by
  rw [templateLiteralEnd, templateEnd] at h
  exact templateEndIn_spec (opaqueEnd_ends s maxSkipDepth .group) h

theorem scanTemplate_fits (h : s.charAt pos = '`') : (scanTemplate s pos).Fits s pos := by
  have hmark (kind : TokenKind) (hkind : kind = .template ∨ kind = .plainTemplate) :
      kind ≠ .endOfFile ∧
        ∀ row ∈ TokenKind.punctuation, row.2 = kind → s.holdsAt pos row.1 = true := by
    rcases hkind with rfl | rfl <;>
      exact ⟨TokenKind.noConfusion,
        no_mark (fun _ => TokenKind.noConfusion) (fun _ => TokenKind.noConfusion)⟩
  rw [scanTemplate]
  cases hfound : templateLiteralEnd s pos with
  | none =>
      obtain ⟨hkind, hmark⟩ := hmark .plainTemplate (.inr rfl)
      exact ⟨(Source.onBoundary_of_charAt h (by decide)).1, s.onBoundary_size, hkind, hmark,
        fun herror => nomatch herror⟩
  | some found =>
      obtain ⟨close, hle, hclose, hstop⟩ := templateLiteralEnd_spec hfound
      obtain ⟨stop, substituted⟩ := found
      obtain rfl : stop = close + 1 := hstop
      have hbound := (Source.onBoundary_of_charAt hclose (by decide)).2.2
      have hbetween := Source.between_marks h hclose (by decide) hle
      cases substituted with
      | true =>
          obtain ⟨hkind, hmark⟩ := hmark .template (.inl rfl)
          exact ⟨Nat.lt_succ_of_lt hle, hbound, hkind, hmark, fun _ => hbetween⟩
      | false =>
          obtain ⟨hkind, hmark⟩ := hmark .plainTemplate (.inr rfl)
          exact ⟨Nat.lt_succ_of_lt hle, hbound, hkind, hmark, fun _ => ⟨_, hbetween, rfl⟩⟩

/-! ### Numbers and marks -/

theorem ascii_of_isDigit {c : Char} (h : c.isDigit = true) : 0 < c.toNat ∧ c.toNat < 0x80 := by
  simp only [Char.isDigit, ge_iff_le, Bool.and_eq_true, decide_eq_true_eq, UInt32.le_iff_toNat_le] at h
  change 48 ≤ c.toNat ∧ c.toNat ≤ 57 at h
  omega

theorem ascii_of_isDigitOrGap {c : Char} (h : isDigitOrGap c = true) : c.toNat < 0x80 := by
  rw [isDigitOrGap, Bool.or_eq_true, beq_iff_eq] at h
  rcases h with h | rfl
  · exact (ascii_of_isDigit h).2
  · decide

theorem ascii_of_isHexDigit {c : Char} (h : isHexDigit c = true) : c.toNat < 0x80 := by
  simp only [isHexDigit, Bool.or_eq_true, Bool.and_eq_true, decide_eq_true_eq, Char.le_def,
    UInt32.le_iff_toNat_le] at h
  rcases h with (h | h) | h
  · exact (ascii_of_isDigit h).2
  · exact Nat.lt_of_le_of_lt h.2 (by decide)
  · exact Nat.lt_of_le_of_lt h.2 (by decide)

def fractionEnd (s : Source) (start : Nat) : Nat :=
  let whole := s.skipWhile isDigitOrGap start
  if s.charAt whole == '.' then s.skipWhile isDigitOrGap (whole + 1) else whole

/-- Where the digits of an exponent begin whose letter stands at an offset. -/
def exponentStart (s : Source) (pos : Nat) : Nat :=
  pos + 1 + if s.charAt (pos + 1) == '+' || s.charAt (pos + 1) == '-' then 1 else 0

/-- The end of the exponent at an offset, or the offset itself if there is none. -/
def exponentEnd (s : Source) (pos : Nat) : Nat :=
  if s.charAt pos == 'e' || s.charAt pos == 'E' then
    if (s.charAt (exponentStart s pos)).isDigit then s.skipWhile isDigitOrGap (exponentStart s pos) else pos
  else pos

theorem decimalEnd_eq (s : Source) (start : Nat) : decimalEnd s start = exponentEnd s (fractionEnd s start) := rfl

theorem lt_exponentStart (s : Source) (pos : Nat) : pos < exponentStart s pos := by
  rw [exponentStart, Nat.add_assoc]
  exact Nat.lt_add_of_pos_right (Nat.lt_of_lt_of_le Nat.one_pos (Nat.le_add_right _ _))

theorem exponentEnd_cases (s : Source) (pos : Nat) :
    exponentEnd s pos = pos ∨
      (s.charAt pos == 'e' || s.charAt pos == 'E') = true ∧ (s.charAt (exponentStart s pos)).isDigit = true ∧
        exponentEnd s pos = s.skipWhile isDigitOrGap (exponentStart s pos) := by
  rw [exponentEnd]
  split
  · rename_i hletter
    split
    · rename_i hdigit
      exact .inr ⟨hletter, hdigit, rfl⟩
    · exact .inl rfl
  · exact .inl rfl

theorem le_exponentEnd (s : Source) (pos : Nat) : pos ≤ exponentEnd s pos := by
  rcases exponentEnd_cases s pos with heq | ⟨-, -, heq⟩
  · exact Nat.le_of_eq heq.symm
  · rw [heq]
    exact Nat.le_trans (Nat.le_of_lt (lt_exponentStart s pos)) (s.le_skipWhile isDigitOrGap _)

/-- The end of the digits of a number. -/
def numeralEnd (s : Source) (start : Nat) : Nat :=
  if s.charAt start == '0' && ['x', 'X', 'o', 'O', 'b', 'B'].contains (s.charAt (start + 1)) then
    s.skipWhile (fun c => isHexDigit c || c == '_') (start + 2)
  else decimalEnd s start

theorem scanNumber_eq (s : Source) (start : Nat) :
    scanNumber s start =
      if s.charAt (numeralEnd s start) == 'n' then .verbatim s start (numeralEnd s start + 1) .bigInt
      else .verbatim s start (numeralEnd s start) .numeric := rfl

theorem fractionEnd_spec (hpos : s.OnBoundary pos) (h : (s.charAt pos).isDigit = true ∨ s.charAt pos = '.') :
    pos < fractionEnd s pos ∧ s.OnBoundary (fractionEnd s pos) := by
  have digits {pos : Nat} (hpos : s.OnBoundary pos) : s.OnBoundary (s.skipWhile isDigitOrGap pos) :=
    hpos.skipWhile_ascii fun _ => ascii_of_isDigitOrGap
  have hle := s.le_skipWhile isDigitOrGap pos
  rw [fractionEnd]
  split
  · rename_i hdot
    have hnext := (Source.onBoundary_of_charAt (beq_iff_eq.mp hdot) (by decide)).2.2
    have hle' := s.le_skipWhile isDigitOrGap (s.skipWhile isDigitOrGap pos + 1)
    exact ⟨by omega, digits hnext⟩
  · rename_i hdot
    refine ⟨?_, digits hpos⟩
    rcases h with h | h
    · exact Source.lt_skipWhile (Source.onBoundary_of_charAt rfl (ascii_of_isDigit h)).1
        (by rw [isDigitOrGap, h, Bool.true_or])
    · apply Nat.lt_of_le_of_ne hle
      intro heq
      rw [← heq, h] at hdot
      exact absurd hdot (by decide)

theorem onBoundary_exponentEnd (hpos : s.OnBoundary pos) : s.OnBoundary (exponentEnd s pos) := by
  rcases exponentEnd_cases s pos with heq | ⟨-, hdigit, heq⟩
  · rwa [heq]
  · rw [heq]
    exact (Source.onBoundary_of_charAt rfl (ascii_of_isDigit hdigit)).2.1.skipWhile_ascii fun _ => ascii_of_isDigitOrGap

theorem numeralEnd_spec (hpos : s.OnBoundary pos) (h : (s.charAt pos).isDigit = true ∨ s.charAt pos = '.') :
    pos < numeralEnd s pos ∧ s.OnBoundary (numeralEnd s pos) := by
  rw [numeralEnd]
  split
  · rename_i hradix
    simp only [Bool.and_eq_true, beq_iff_eq, List.contains_eq_mem, decide_eq_true_eq,
      List.mem_cons, List.not_mem_nil, or_false] at hradix
    have hnext : s.OnBoundary (pos + 2) := by
      refine (@Source.onBoundary_of_charAt s (pos + 1) _ rfl ?_).2.2
      rcases hradix.2 with h | h | h | h | h | h <;> rw [h] <;> decide
    refine ⟨Nat.lt_of_lt_of_le (by omega) (s.le_skipWhile _ (pos + 2)), hnext.skipWhile_ascii fun c hc => ?_⟩
    rw [Bool.or_eq_true, beq_iff_eq] at hc
    rcases hc with hc | rfl
    · exact ascii_of_isHexDigit hc
    · decide
  · obtain ⟨hlt, hfraction⟩ := fractionEnd_spec hpos h
    rw [decimalEnd_eq]
    exact ⟨Nat.lt_of_lt_of_le hlt (le_exponentEnd s _), onBoundary_exponentEnd hfraction⟩

theorem verbatim_fits {kind : TokenKind} {stop : Nat} (hkind : kind = .bigInt ∨ kind = .numeric)
    (hpos : s.OnBoundary pos) (hstop : s.OnBoundary stop) (hlt : pos < stop) :
    (Lexeme.verbatim s pos stop kind).Fits s pos := by
  have hbetween := hpos.between_slice hstop (Nat.le_of_lt hlt)
  rcases hkind with rfl | rfl <;>
    exact ⟨hlt, hstop, TokenKind.noConfusion,
      no_mark (fun _ => TokenKind.noConfusion) (fun _ => TokenKind.noConfusion), fun _ => hbetween⟩

theorem scanNumber_fits (hpos : s.OnBoundary pos)
    (h : (s.charAt pos).isDigit = true ∨ s.charAt pos = '.') : (scanNumber s pos).Fits s pos := by
  obtain ⟨hlt, hstop⟩ := numeralEnd_spec hpos h
  rw [scanNumber_eq]
  split
  · rename_i hmark
    exact verbatim_fits (.inl rfl) hpos (Source.onBoundary_of_charAt (beq_iff_eq.mp hmark) (by decide)).2.2
      (Nat.lt_succ_of_lt hlt)
  · exact verbatim_fits (.inr rfl) hpos hstop hlt

/-- No two marks are of one kind. -/
theorem punctuation_unique : ∀ row ∈ TokenKind.punctuation, ∀ row' ∈ TokenKind.punctuation,
    row.2 = row'.2 → row = row' := by
  decide +kernel

theorem scanPunctuation_fits (hlt : pos < s.size) (hascii : (s.charAt pos).toNat < 0x80) :
    (scanPunctuation s pos).Fits s pos := by
  have hpos := Source.onBoundary_of_ascii hlt hascii
  rw [scanPunctuation]
  dsimp only
  split
  · rename_i w kind hfind
    have hmem := List.mem_of_find?_eq_some hfind
    have hholds := List.find?_some hfind
    simp only [Bool.and_eq_true] at hholds
    obtain ⟨hkind, hne, hbytes⟩ := punctuation_spec _ hmem
    have hlength : 0 < w.length := List.length_pos_iff.mpr hne
    refine ⟨by change pos < pos + w.length; omega, onBoundary_of_holdsAt hpos hbytes hholds.1, ?_,
      fun row hrow heq => ?_, fun _ => ?_⟩
    · rintro rfl
      rcases hkind with ⟨p, hp⟩ | ⟨op, hop⟩
      · exact TokenKind.noConfusion hp
      · exact TokenKind.noConfusion hop
    · obtain rfl := punctuation_unique row hrow _ hmem heq
      exact hholds.1
    · rcases hkind with ⟨p, hp⟩ | ⟨op, hop⟩
      · dsimp only at hp
        rw [hp]
        trivial
      · dsimp only at hop
        rw [hop]
        trivial
  · exact ⟨Nat.lt_succ_self pos, Source.onBoundary_succ_of_ascii hlt hascii, TokenKind.noConfusion,
      no_mark (fun _ => TokenKind.noConfusion) (fun _ => TokenKind.noConfusion),
      fun herror => by cases herror⟩

theorem scanLexeme_fits (hpos : s.OnBoundary pos) (hlt : pos < s.size) :
    (scanLexeme s pos).Fits s pos := by
  rw [scanLexeme]
  dsimp only
  split
  · rename_i hquote
    simp only [Bool.or_eq_true, beq_iff_eq] at hquote
    exact scanString_fits hquote rfl
  · split
    · rename_i htick
      exact scanTemplate_fits (beq_iff_eq.mp htick)
    · split
      · rename_i hdigit
        rw [Bool.or_eq_true, Bool.and_eq_true, beq_iff_eq] at hdigit
        exact scanNumber_fits hpos (hdigit.imp_right And.left)
      · split
        · rename_i hhash
          rw [Bool.and_eq_true, beq_iff_eq] at hhash
          exact scanPrivate_fits hhash.1
        · split
          · rename_i hstart
            exact scanWord_fits hpos hlt hstart
          · rename_i hstart
            refine scanPunctuation_fits hlt (Nat.lt_of_not_le fun hwide => hstart ?_)
            simp [isIdentifierStart, hwide]

/-! ## Tokens -/

/-- A token scanned from a boundary fits, and stands for its text unless there is an error. -/
theorem scanAt_fits (h : s.OnBoundary pos) :
    (scanAt s pos).1.Fits s ∧ pos ≤ (scanAt s pos).1.start ∧
      ((scanAt s pos).2 = [] → (scanAt s pos).1.Spelled s) := by
  obtain ⟨hle, hstart⟩ := @triviaIn_spec s pos (s.size - pos) false h
  rw [scanAt]
  dsimp only
  split
  · rename_i hsize
    refine ⟨⟨hstart, hstart, Nat.le_refl _, fun hkind => absurd rfl hkind, fun _ => ?_, ?_⟩, hle,
      fun _ => trivial⟩
    · exact Nat.le_antisymm hstart.le hsize
    · exact no_mark (fun _ => TokenKind.noConfusion) (fun _ => TokenKind.noConfusion)
  · rename_i hsize
    have hfits := scanLexeme_fits hstart (Nat.lt_of_not_le hsize)
    refine ⟨⟨hstart, hfits.stop, Nat.le_of_lt hfits.lt, fun _ => hfits.lt,
      fun hkind => absurd hkind hfits.kind, hfits.mark⟩, hle, fun herrors => ?_⟩
    apply hfits.spells
    rw [List.append_eq_nil_iff, Option.toList_eq_nil_iff] at herrors
    exact herrors.2

variable {t : Token}

/-- A slash token begins with a slash. -/
theorem Fits.slash (h : t.Fits s)
    (hkind : (t.kind == .punct .slash || t.kind == .assign .slashEquals) = true) :
    s.charAt t.start = '/' := by
  have hbegins : ∀ kind ∈ [TokenKind.punct .slash, .assign .slashEquals],
      ∃ row ∈ TokenKind.punctuation, row.2 = kind ∧ row.1.head? = some 0x2f := by
    decide +kernel
  simp only [Bool.or_eq_true, beq_iff_eq] at hkind
  obtain ⟨row, hrow, hkind, hhead⟩ := hbegins t.kind (by simpa using hkind)
  have hholds := h.mark row hrow hkind
  obtain ⟨w, hw⟩ := List.head?_eq_some_iff.mp hhead
  rw [hw, Source.holdsAt, Bool.and_eq_true, beq_iff_eq] at hholds
  rw [Source.charAt, hholds.1]
  rfl

/-- An opening bracket stands where its token begins. -/
theorem Fits.opener (h : t.Fits s) (hkind : Parser.isOpener t.kind = true) :
    (closer? (s.charAt t.start)).isSome = true := by
  have hbegins : ∀ kind ∈ [TokenKind.punct .openBrace, .punct .openParen, .punct .openBracket],
      ∃ row ∈ TokenKind.punctuation, row.2 = kind ∧
        row.1.head?.any (fun b => (closer? (Char.ofUInt8 b)).isSome) = true := by
    decide +kernel
  simp only [Parser.isOpener, Bool.or_eq_true, beq_iff_eq] at hkind
  obtain ⟨row, hrow, hkind, hhead⟩ := hbegins t.kind (by
    simp only [List.mem_cons, List.not_mem_nil, or_false]
    exact or_assoc.mp hkind)
  have hholds := h.mark row hrow hkind
  cases hw : row.1 with
  | nil => simp [hw] at hhead
  | cons b w =>
      rw [hw, Source.holdsAt, Bool.and_eq_true, beq_iff_eq] at hholds
      rw [hw] at hhead
      rw [Source.charAt, hholds.1]
      simpa using hhead

/-- Reading a slash anew as a regular expression keeps the token's beginning. -/
theorem asRegex_fits (h : t.Fits s) :
    (t.asRegex s).1.Fits s ∧ (t.asRegex s).1.start = t.start ∧
      ((t.asRegex s).2 = [] → t.Spelled s → (t.asRegex s).1.Spelled s) := by
  rw [asRegex]
  split
  · rename_i hkind
    have hmark : ∀ row ∈ TokenKind.punctuation, row.2 = .regex → s.holdsAt t.start row.1 = true :=
      no_mark (fun _ => TokenKind.noConfusion) (fun _ => TokenKind.noConfusion)
    split
    · rename_i stop hstop
      obtain ⟨hlt, hbound⟩ := regexEnd_ends s t.start stop hstop
      refine ⟨⟨h.start, hbound, Nat.le_of_lt hlt, fun _ => hlt, TokenKind.noConfusion, hmark⟩, rfl,
        fun _ _ => ?_⟩
      exact h.start.between_slice hbound (Nat.le_of_lt hlt)
    · have hlt := lt_lineCommentEnd (h.slash hkind)
      exact ⟨⟨h.start, onBoundary_lineCommentEnd s t.start, Nat.le_of_lt hlt, fun _ => hlt,
        TokenKind.noConfusion, hmark⟩, rfl, fun herrors => nomatch herrors⟩
  · exact ⟨h, rfl, fun _ hspelled => hspelled⟩

end Token

end PropContract
