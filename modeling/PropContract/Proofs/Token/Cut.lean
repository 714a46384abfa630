import PropContract.Proofs.Token.Agree
import PropContract.Proofs.Token.Ahead

/-!
# Tokens cut out of their text

A token scanned without an error is scanned alone as in its text: nothing behind it goes into it, and what
is looked at behind it to tell where it ends is found neither at the end of a text.
-/

namespace PropContract

open Text

namespace Token

/-! ## Numbers and private names -/

/-- A number without digits before its dot. -/
theorem lt_numeralEnd {s : Source} {pos : Nat} (hdot : s.charAt pos = '.') (hdigit : (s.charAt (pos + 1)).isDigit = true) :
    pos + 1 < numeralEnd s pos := by
  have hpos : pos < s.size := (Source.onBoundary_of_charAt hdot (by decide)).1
  have hnext : pos + 1 < s.size := (Source.onBoundary_of_charAt rfl (ascii_of_isDigit hdigit)).1
  have hwhole : s.skipWhile isDigitOrGap pos = pos := by
    obtain ⟨hle, -, -, hall⟩ := Source.skipWhile_spec (p := isDigitOrGap) (Nat.le_of_lt hpos)
    refine Nat.le_antisymm (Nat.le_of_not_lt fun hlt => ?_) hle
    have hgap := hall pos (Nat.le_refl pos) hlt
    rw [hdot] at hgap
    exact absurd hgap (by decide)
  have hfraction : fractionEnd s pos = s.skipWhile isDigitOrGap (pos + 1) := by
    rw [fractionEnd, hwhole, hdot]
    rfl
  have hlt : pos + 1 < s.skipWhile isDigitOrGap (pos + 1) :=
    Source.lt_skipWhile hnext (by rw [isDigitOrGap, hdigit, Bool.true_or])
  have hle := le_exponentEnd s (fractionEnd s pos)
  rw [hfraction] at hle
  rw [numeralEnd, hdot, decimalEnd_eq, hfraction]
  exact Nat.lt_of_lt_of_le hlt hle

/-! ## Where punctuation stands -/

/-- Whether an operator or bracket stands at an offset. -/
def standsAt (s : Source) (pos : Nat) (row : List UInt8 × TokenKind) : Bool :=
  s.holdsAt pos row.1 && !(row.2 == .punct .questionDot && (s.charAt (pos + 2)).isDigit)

theorem scanPunctuation_eq (s : Source) (pos : Nat) :
    scanPunctuation s pos =
      match TokenKind.punctuation.find? (standsAt s pos) with
      | some (w, kind) => { stop := pos + w.length, kind }
      | none =>
        { stop := pos + 1, kind := .unknown
          error := some { start := pos, length := 1, message := .invalidCharacter } } := rfl

/-- Bytes of one length that stand at an offset are the same. -/
theorem eq_of_holdsAt {s : Source} {pos : Nat} {w w' : List UInt8} (hw : s.holdsAt pos w = true)
    (hw' : s.holdsAt pos w' = true) (hlength : w.length = w'.length) : w = w' := by
  induction w generalizing pos w' with
  | nil => exact (List.length_eq_zero_iff.mp hlength.symm).symm
  | cons b w ih =>
      cases w' with
      | nil => cases hlength
      | cons b' w' =>
          simp only [Source.holdsAt, Bool.and_eq_true, beq_iff_eq] at hw hw'
          obtain rfl : b = b' := Option.some.inj (hw.1.symm.trans hw'.1)
          rw [ih hw.2 hw'.2 (Nat.succ.inj hlength)]

theorem le_size_of_holdsAt {s : Source} {pos : Nat} {w : List UInt8} (hw : s.holdsAt pos w = true) :
    pos + w.length ≤ s.size := by
  induction w generalizing pos with
  | nil => exact of_decide_eq_true hw
  | cons b w ih =>
      have hle := ih (Bool.and_eq_true_iff.mp hw).2
      rw [List.length_cons]
      omega

theorem questionDot_row : ∀ row ∈ TokenKind.punctuation, row.2 = .punct .questionDot ↔ row.1 = [0x3f, 0x2e] := by
  decide +kernel

/-- Two characters that tell a number or a private name are both in it. -/
theorem lt_scanLexeme {s : Source} {pos : Nat}
    (h : (s.charAt pos == '.' && (s.charAt (pos + 1)).isDigit) = true ∨
      (s.charAt pos == '#' && isIdentifierStart (s.charAt (pos + 1))) = true) :
    pos + 1 < (scanLexeme s pos).stop := by
  rcases h with h | h
  · obtain ⟨hdot, hdigit⟩ := Bool.and_eq_true_iff.mp h
    have hdot := eq_of_beq hdot
    have hnumber : scanLexeme s pos = scanNumber s pos := by
      rw [scanLexeme, hdot]
      simp only [hdigit]
      rfl
    rw [hnumber, scanNumber_eq]
    have hlt := lt_numeralEnd hdot hdigit
    split
    · exact Nat.lt_succ_of_lt hlt
    · exact hlt
  · obtain ⟨hhash, hname⟩ := Bool.and_eq_true_iff.mp h
    have hhash := eq_of_beq hhash
    have hword : (scanLexeme s pos).stop = identifierEnd s (pos + 1) := by
      rw [scanLexeme, hhash]
      simp only [hname]
      rfl
    have hnext : pos + 1 < s.size := by
      refine Source.lt_size_of_charAt fun hnul => ?_
      rw [hnul] at hname
      exact absurd hname (by decide)
    rw [hword]
    exact lt_identifierEnd hnext hname

section

variable {t s : Source} {pos : Nat} {p : Char → Bool} (h : t.Agree s s.size)

include h

/-! ## Lexemes -/

/-- A test that fails at the end of a text comes out the same, if it holds nowhere behind the part cut out. -/
theorem test_cut (hp : p '\x00' = false) (hlt : p (t.charAt pos) = true → pos < s.size) :
    p (s.charAt pos) = p (t.charAt pos) := by
  by_cases hpos : pos < s.size
  · rw [h.charAt hpos]
  · rw [Source.charAt_of_size_le (Nat.le_of_not_lt hpos), hp]
    exact (Bool.eq_false_iff.mpr fun htest => hpos (hlt htest)).symm

theorem skipWhile_cut (hp : p '\x00' = false) (hle : t.skipWhile p pos ≤ s.size) :
    s.skipWhile p pos = t.skipWhile p pos := by
  have hpos := t.le_skipWhile p pos
  have hsize := h.le_left
  refine h.skipWhile rfl hle ?_
  rcases Nat.eq_or_lt_of_le hle with heq | hlt
  · rw [heq, Source.charAt_of_size_le (Nat.le_refl _), hp]
  · rw [h.charAt hlt]
    exact (Source.skipWhile_spec (by omega)).2.2.1 (by omega)

theorem scanWord_cut (hstop : (scanWord t pos).stop ≤ s.size) : scanWord s pos = scanWord t pos := by
  have hend : identifierEnd s pos = identifierEnd t pos := skipWhile_cut h (by decide) hstop
  have hslice : s.slice pos (identifierEnd t pos) = t.slice pos (identifierEnd t pos) := h.slice hstop
  rw [scanWord, scanWord, hend, hslice]

theorem fractionEnd_cut (hle : fractionEnd t pos ≤ s.size) : fractionEnd s pos = fractionEnd t pos := by
  rw [fractionEnd] at hle ⊢
  rw [fractionEnd]
  have hwhole : t.skipWhile isDigitOrGap pos ≤ s.size := by
    refine Nat.le_trans ?_ hle
    split
    · exact Nat.le_of_succ_le (t.le_skipWhile isDigitOrGap _)
    · exact Nat.le_refl _
  rw [skipWhile_cut h (by decide) hwhole]
  generalize t.skipWhile isDigitOrGap pos = whole at hle hwhole
  have hdot : (s.charAt whole == '.') = (t.charAt whole == '.') := by
    refine test_cut (p := (· == '.')) h (by decide) fun hdot => ?_
    rw [if_pos hdot] at hle
    exact Nat.lt_of_lt_of_le (Nat.lt_of_succ_le (t.le_skipWhile isDigitOrGap _)) hle
  rw [hdot]
  split
  · rename_i hdot
    rw [if_pos hdot] at hle
    exact skipWhile_cut h (by decide) hle
  · rfl

/-- An exponent is cut out as a whole, and there is none where the text ends or goes on with the mark of a
large integer. -/
theorem exponentEnd_cut (hle : exponentEnd t pos ≤ s.size)
    (hmark : exponentEnd t pos < s.size → t.charAt (exponentEnd t pos) = 'n') :
    exponentEnd s pos = exponentEnd t pos := by
  rcases exponentEnd_cases t pos with heq | ⟨hletter, hdigit, heq⟩
  · rw [heq] at hle hmark ⊢
    have hnone : (s.charAt pos == 'e' || s.charAt pos == 'E') = false := by
      rcases Nat.eq_or_lt_of_le hle with heq | hlt
      · rw [heq, Source.charAt_of_size_le (Nat.le_refl _)]
        decide
      · rw [h.charAt hlt, hmark hlt]
        decide
    rw [exponentEnd, hnone]
    rfl
  · rw [heq] at hle ⊢
    have hsize := h.le_left
    have hstart := lt_exponentStart t pos
    have hdigits : exponentStart t pos < s.size :=
      Nat.lt_of_lt_of_le (Source.lt_skipWhile (Source.onBoundary_of_charAt rfl (ascii_of_isDigit hdigit)).1
        (by rw [isDigitOrGap, hdigit, Bool.true_or])) hle
    have hsame : exponentStart s pos = exponentStart t pos := by
      rw [exponentStart, exponentStart, h.charAt (by omega)]
    rw [exponentEnd, hsame, h.charAt (by omega), if_pos hletter, h.charAt hdigits, if_pos hdigit]
    exact skipWhile_cut h (by decide) hle

theorem decimalEnd_cut (hle : decimalEnd t pos ≤ s.size)
    (hmark : decimalEnd t pos < s.size → t.charAt (decimalEnd t pos) = 'n') :
    decimalEnd s pos = decimalEnd t pos := by
  rw [decimalEnd_eq] at hle hmark
  rw [decimalEnd_eq, decimalEnd_eq, fractionEnd_cut h (Nat.le_trans (le_exponentEnd t _) hle),
    exponentEnd_cut h hle hmark]

theorem numeralEnd_cut (hpos : pos < s.size) (hle : numeralEnd t pos ≤ s.size)
    (hmark : numeralEnd t pos < s.size → t.charAt (numeralEnd t pos) = 'n') :
    numeralEnd s pos = numeralEnd t pos := by
  have hradix : (s.charAt pos == '0' && ['x', 'X', 'o', 'O', 'b', 'B'].contains (s.charAt (pos + 1))) =
      (t.charAt pos == '0' && ['x', 'X', 'o', 'O', 'b', 'B'].contains (t.charAt (pos + 1))) := by
    rw [h.charAt hpos]
    cases hzero : t.charAt pos == '0' with
    | false => rfl
    | true =>
        refine congrArg _ (test_cut h (by decide) fun hletter => ?_)
        rw [numeralEnd, hzero, hletter] at hle
        exact Nat.lt_of_lt_of_le (Nat.lt_of_succ_le (t.le_skipWhile _ (pos + 2))) hle
  rw [numeralEnd] at hle hmark
  rw [numeralEnd, numeralEnd, hradix]
  split
  · rename_i hletter
    rw [if_pos hletter] at hle
    exact skipWhile_cut h (by decide) hle
  · rename_i hletter
    rw [if_neg hletter] at hle hmark
    exact decimalEnd_cut h hle hmark

theorem scanNumber_cut (hpos : pos < s.size) (hstop : (scanNumber t pos).stop = s.size) :
    scanNumber s pos = scanNumber t pos := by
  have hslice {stop : Nat} (hle : stop ≤ s.size) (kind : TokenKind) :
      Lexeme.verbatim s pos stop kind = .verbatim t pos stop kind := by
    rw [Lexeme.verbatim, Lexeme.verbatim, h.slice hle]
  rw [scanNumber_eq] at hstop
  rw [scanNumber_eq, scanNumber_eq]
  by_cases hmark : (t.charAt (numeralEnd t pos) == 'n') = true
  · rw [if_pos hmark] at hstop
    have hstop : numeralEnd t pos + 1 = s.size := hstop
    have hlt : numeralEnd t pos < s.size := by omega
    rw [numeralEnd_cut h hpos (Nat.le_of_lt hlt) fun _ => eq_of_beq hmark, h.charAt hlt, if_pos hmark, if_pos hmark,
      hslice hlt]
  · rw [if_neg hmark] at hstop
    have hstop : numeralEnd t pos = s.size := hstop
    have hend : (s.charAt s.size == 'n') = false := by
      rw [Source.charAt_of_size_le (Nat.le_refl _)]
      decide
    rw [numeralEnd_cut h hpos (Nat.le_of_eq hstop) fun hlt => absurd hstop (Nat.ne_of_lt hlt), if_neg hmark, hstop,
      hend, hslice (Nat.le_refl _)]
    rfl

/-- Where one mark ends with the part cut out, the others stand alone only if they stand in the text. -/
theorem standsAt_of_cut {row row' : List UInt8 × TokenKind} (hrow : row ∈ TokenKind.punctuation)
    (hrow' : row' ∈ TokenKind.punctuation) (hstands : standsAt t pos row = true)
    (hstop : pos + row.1.length = s.size) (hstands' : standsAt s pos row' = true) : standsAt t pos row' = true := by
  rw [standsAt, Bool.and_eq_true] at hstands hstands'
  have hle := le_size_of_holdsAt hstands'.1
  have hholds : t.holdsAt pos row'.1 = true := by rw [← h.holdsAt hle, hstands'.1]
  rw [standsAt, hholds, Bool.true_and]
  by_cases hquestion : row'.2 = .punct .questionDot
  · have hchars := (questionDot_row row' hrow').mp hquestion
    have hle : pos + 2 ≤ s.size := by rwa [hchars] at hle
    rcases Nat.eq_or_lt_of_le hle with hlast | hlt
    · have hsame : row.1 = row'.1 := by
        refine eq_of_holdsAt hstands.1 hholds ?_
        rw [hchars, List.length_cons, List.length_singleton]
        omega
      rw [(questionDot_row row hrow).mpr (hsame.trans hchars)] at hstands
      rw [hquestion]
      exact hstands.2
    · rw [← h.charAt hlt]
      exact hstands'.2
  · rw [beq_false_of_ne hquestion]
    rfl

theorem scanPunctuation_cut (herror : (scanPunctuation t pos).error = none)
    (hstop : (scanPunctuation t pos).stop = s.size) : scanPunctuation s pos = scanPunctuation t pos := by
  rw [scanPunctuation_eq] at herror hstop
  rw [scanPunctuation_eq, scanPunctuation_eq]
  cases hfind : TokenKind.punctuation.find? (standsAt t pos) with
  | none =>
      rw [hfind] at herror
      cases herror
  | some row =>
      rw [hfind] at hstop
      have hstop : pos + row.1.length = s.size := hstop
      obtain ⟨hstands, before, behind, htable, hbefore⟩ := List.find?_eq_some_iff_append.mp hfind
      have hmem : row ∈ TokenKind.punctuation := List.mem_of_find?_eq_some hfind
      have hsame : TokenKind.punctuation.find? (standsAt s pos) = some row := by
        refine List.find?_eq_some_iff_append.mpr ⟨?_, before, behind, htable, fun row' hrow' => ?_⟩
        · rw [standsAt, Bool.and_eq_true] at hstands ⊢
          rw [h.holdsAt (Nat.le_of_eq hstop)]
          refine ⟨hstands.1, ?_⟩
          cases hquestion : row.2 == .punct .questionDot with
          | false => rfl
          | true =>
              have hdigit : (t.charAt (pos + 2)).isDigit = false := by simpa [hquestion] using hstands.2
              have hsame : (s.charAt (pos + 2)).isDigit = (t.charAt (pos + 2)).isDigit :=
                test_cut h (by decide) fun hdigit' => absurd hdigit' (by rw [hdigit]; decide)
              rw [hsame, hdigit]
              rfl
        · have hmem' : row' ∈ TokenKind.punctuation := htable ▸ List.mem_append_left _ hrow'
          have hnot := hbefore row' hrow'
          rw [Bool.not_eq_true'] at hnot ⊢
          exact Bool.eq_false_iff.mpr fun hstands' =>
            absurd (standsAt_of_cut h hmem hmem' hstands hstop hstands') (by rw [hnot]; decide)
      rw [hsame]

/-- A lexeme is found alone. -/
theorem scanLexeme_cut (hpos : t.OnBoundary pos) (hlt : pos < t.size) (herror : (scanLexeme t pos).error = none)
    (hstop : (scanLexeme t pos).stop = s.size) : scanLexeme s pos = scanLexeme t pos := by
  have hinside : pos < s.size := hstop ▸ (scanLexeme_fits hpos hlt).lt
  have hdigit : (s.charAt pos == '.' && (s.charAt (pos + 1)).isDigit) =
      (t.charAt pos == '.' && (t.charAt (pos + 1)).isDigit) := by
    rw [h.charAt hinside]
    cases hdot : t.charAt pos == '.' with
    | false => rfl
    | true =>
        refine congrArg _ (test_cut (p := Char.isDigit) h (by decide) fun hdigit => ?_)
        exact hstop ▸ lt_scanLexeme (.inl (by rw [hdot, hdigit]; rfl))
  have hname : (s.charAt pos == '#' && isIdentifierStart (s.charAt (pos + 1))) =
      (t.charAt pos == '#' && isIdentifierStart (t.charAt (pos + 1))) := by
    rw [h.charAt hinside]
    cases hhash : t.charAt pos == '#' with
    | false => rfl
    | true =>
        refine congrArg _ (test_cut (p := isIdentifierStart) h (by decide) fun hname => ?_)
        exact hstop ▸ lt_scanLexeme (.inr (by rw [hhash, hname]; rfl))
  revert herror hstop
  rw [scanLexeme, scanLexeme]
  dsimp only
  rw [hdigit, hname, h.charAt hinside]
  split
  · exact fun herror hstop => scanString_agree h hlt herror (Nat.le_of_eq hstop)
  split
  · exact fun herror hstop => scanTemplate_agree h herror (Nat.le_of_eq hstop)
  split
  · exact fun _ hstop => scanNumber_cut h hinside hstop
  split
  · intro _ hstop
    rw [scanWord_cut h (Nat.le_of_eq hstop)]
  split
  · exact fun _ hstop => scanWord_cut h (Nat.le_of_eq hstop)
  · exact fun herror hstop => scanPunctuation_cut h herror hstop

end

/-! ## Blanks and comments -/

/-- Whether no blank and no comment begins at an offset. -/
structure Settled (s : Source) (pos : Nat) : Prop extends Plain s pos where
  separator : (s.charAt pos == '\u00e2' && s.charAt (pos + 1) == '\u0080' &&
    (s.charAt (pos + 2) == '\u00a8' || s.charAt (pos + 2) == '\u00a9')) = false
  noBreakSpace : (s.charAt pos == '\u00c2' && s.charAt (pos + 1) == '\u00a0') = false

theorem settled_of_size_le {s : Source} {pos : Nat} (h : s.size ≤ pos) : Settled s pos := by
  refine ⟨plain_of_size_le h, ?_, ?_⟩ <;> rw [Source.charAt_of_size_le h] <;> rfl

theorem Settled.triviaAt {s : Source} {pos : Nat} (h : Settled s pos) : triviaAt s pos = { stop := pos } := by
  rw [Token.triviaAt]
  cases s.size - pos with
  | zero => rfl
  | succ n =>
      rw [triviaIn, h.lineBreak, h.blank, h.lineComment, h.blockComment, h.separator, h.noBreakSpace]
      rfl

/-- A run of blanks and comments is read to its end. -/
theorem settled_triviaIn {s : Source} {n pos : Nat} {b : Bool} (hn : s.size - pos ≤ n) :
    Settled s (triviaIn s n pos b).stop := by
  induction n generalizing pos b with
  | zero => exact settled_of_size_le (Nat.sub_eq_zero_iff_le.mp (Nat.le_zero.mp hn))
  | succ n ih =>
      by_cases hsize : s.size ≤ pos
      · rw [triviaIn_of_size_le hsize]
        exact settled_of_size_le hsize
      have later {pos' : Nat} {b' : Bool} (hlt : pos < pos') : Settled s (triviaIn s n pos' b').stop := ih (by omega)
      rw [triviaIn]
      split
      · exact later (Nat.lt_succ_self pos)
      rename_i hbreak
      split
      · exact later (Nat.lt_succ_self pos)
      rename_i hblank
      split
      · rename_i hcomment
        exact later (lt_lineCommentEnd (eq_of_beq (Bool.and_eq_true_iff.mp hcomment).1))
      rename_i hline
      split
      · cases hblock : blockCommentEnd s pos with
        | none => exact settled_of_size_le (Nat.le_refl _)
        | some found => exact later (blockCommentEnd_ends s pos found.1 (by rw [hblock]; rfl)).1
      rename_i hblock
      split
      · exact later (by omega)
      rename_i hseparator
      split
      · exact later (by omega)
      rename_i hspace
      simp only [Bool.not_eq_true] at hbreak hblank hline hblock hseparator hspace
      exact ⟨⟨hbreak, hblank, hline, hblock⟩, hseparator, hspace⟩

theorem Settled.cut {t s : Source} {pos : Nat} (h : t.Agree s s.size) (hpos : pos < s.size) (hsettled : Settled t pos) :
    Settled s pos := by
  have same {i : Nat} {c : Char} (hc : c ≠ '\x00') (hchar : s.charAt i = c) : t.charAt i = c := by
    rw [← h.charAt (Source.lt_size_of_charAt (hchar ▸ hc)), hchar]
  refine ⟨⟨h.charAt hpos ▸ hsettled.lineBreak, h.charAt hpos ▸ hsettled.blank, ?_, ?_⟩, ?_, ?_⟩
  · refine Bool.eq_false_iff.mpr fun hcomment => Bool.eq_false_iff.mp hsettled.lineComment ?_
    simp only [Bool.and_eq_true, beq_iff_eq] at hcomment ⊢
    exact ⟨same (by decide) hcomment.1, same (by decide) hcomment.2⟩
  · refine Bool.eq_false_iff.mpr fun hcomment => Bool.eq_false_iff.mp hsettled.blockComment ?_
    simp only [Bool.and_eq_true, beq_iff_eq] at hcomment ⊢
    exact ⟨same (by decide) hcomment.1, same (by decide) hcomment.2⟩
  · refine Bool.eq_false_iff.mpr fun hblank => Bool.eq_false_iff.mp hsettled.separator ?_
    simp only [Bool.and_eq_true, Bool.or_eq_true, beq_iff_eq] at hblank ⊢
    exact ⟨⟨same (by decide) hblank.1.1, same (by decide) hblank.1.2⟩,
      hblank.2.imp (same (by decide)) (same (by decide))⟩
  · refine Bool.eq_false_iff.mpr fun hblank => Bool.eq_false_iff.mp hsettled.noBreakSpace ?_
    simp only [Bool.and_eq_true, beq_iff_eq] at hblank ⊢
    exact ⟨same (by decide) hblank.1, same (by decide) hblank.2⟩

end Token

end PropContract
