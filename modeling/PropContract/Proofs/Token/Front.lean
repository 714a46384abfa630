import Mathlib.Data.List.Find
import PropContract.Proofs.Text.Front
import PropContract.Proofs.Token.Agree

/-!
# Tokens at the front of a larger text

Where a text goes on with a blank or a line feed, its tokens are tokens of the larger text, and what is
stepped over in it ends where it does there.
-/

namespace PropContract

open Text

namespace Token

variable {t s : Source} {c : Char} {pos r n m : Nat} (h : t.Extends s c) (hc : c = ' ' ∨ c = '\n' ∨ c = ';')

include hc in
theorem isIdentifierPart_blank : isIdentifierPart c = false := by
  rcases hc with rfl | rfl | rfl <;> decide

/-! ## Blanks and comments -/

section

include h hc

/-- A test for a character other than a blank tells the same up to the end of the shorter text. -/
theorem beq_front {x : Char} (hx : x ∉ [' ', '\n', ';', '\x00']) (hpos : pos ≤ s.size) :
    (t.charAt pos == x) = (s.charAt pos == x) := by
  simp only [List.mem_cons, List.not_mem_nil, or_false, not_or] at hx
  obtain ⟨hspace, hbreak, hsemicolon, hnul⟩ := hx
  have hne : c ≠ x := by
    rcases hc with rfl | rfl | rfl
    · exact Ne.symm hspace
    · exact Ne.symm hbreak
    · exact Ne.symm hsemicolon
  refine h.test (p := (· == x)) ?_ hpos
  rw [beq_eq_false_iff_ne.mpr hne, beq_eq_false_iff_ne.mpr (Ne.symm hnul)]

theorem triviaIn_front {lineBreak : Bool} (hstop : (triviaIn s n pos lineBreak).stop < s.size)
    (hn : s.size - pos ≤ n) (hm : n ≤ m) : triviaIn t m pos lineBreak = triviaIn s n pos lineBreak := by
  induction n generalizing pos m lineBreak with
  | zero =>
      have hpos : pos < s.size := hstop
      omega
  | succ n ih =>
      obtain _ | m := m
      · exact absurd hm (Nat.not_succ_le_zero _)
      have hm := Nat.le_of_succ_le_succ hm
      by_cases hsize : s.size ≤ pos
      · rw [triviaIn, Source.charAt_of_size_le hsize] at hstop
        exact absurd hstop (Nat.not_lt_of_le hsize)
      have hlt : pos < s.size := Nat.lt_of_not_le hsize
      have hnext {x : Char} (hx : x ∉ [' ', '\n', ';', '\x00']) :
          (t.charAt (pos + 1) == x) = (s.charAt (pos + 1) == x) := beq_front h hc hx hlt
      have hseparator : (s.charAt (pos + 1) == '\u0080' &&
          (t.charAt (pos + 2) == '\u00a8' || t.charAt (pos + 2) == '\u00a9')) =
          (s.charAt (pos + 1) == '\u0080' &&
          (s.charAt (pos + 2) == '\u00a8' || s.charAt (pos + 2) == '\u00a9')) := by
        cases hlead : s.charAt (pos + 1) == '\u0080' with
        | false => rfl
        | true =>
            have hlt : pos + 1 < s.size := Source.lt_size_of_charAt (by rw [eq_of_beq hlead]; decide)
            rw [beq_front h hc (by decide) hlt, beq_front h hc (by decide) hlt]
      have later {pos' : Nat} {lineBreak' : Bool} (hlt : pos < pos')
          (hstop : (triviaIn s n pos' lineBreak').stop < s.size) :
          triviaIn t m pos' lineBreak' = triviaIn s n pos' lineBreak' := ih hstop (by omega) hm
      revert hstop
      rw [triviaIn, triviaIn, h.charAt hlt]
      simp only [hnext (x := '/') (by decide), hnext (x := '*') (by decide), hnext (x := '\u0080') (by decide),
        hnext (x := '\u00a0') (by decide), Bool.and_assoc, hseparator]
      split
      · exact later (Nat.lt_succ_self pos)
      split
      · exact later (Nat.lt_succ_self pos)
      split
      · rename_i hcomment
        have hslash := lt_lineCommentEnd (eq_of_beq (Bool.and_eq_true_iff.mp hcomment).1)
        intro hstop
        have hle : lineCommentEnd s pos ≤ (triviaIn s n (lineCommentEnd s pos) lineBreak).stop :=
          (triviaIn_spec (onBoundary_lineCommentEnd s pos)).1
        rw [lineCommentEnd_agree h.agree (Nat.lt_of_le_of_lt hle hstop)]
        exact later hslash hstop
      split
      · cases hblock : blockCommentEnd s pos with
        | none => exact fun hstop => absurd hstop (Nat.lt_irrefl _)
        | some found =>
            obtain ⟨hlt, hbound⟩ := blockCommentEnd_ends s pos found.1 (by rw [hblock]; rfl)
            rw [blockCommentEnd_agree h.agree hblock hbound.le]
            exact later hlt
      split
      · exact later (by omega)
      split
      · exact later (by omega)
      · exact fun _ => rfl

/-! ## Lexemes and tokens -/

theorem scanWord_front (hpos : pos ≤ s.size) : scanWord t pos = scanWord s pos := by
  have hstop : identifierEnd t pos = identifierEnd s pos := h.skipWhile (isIdentifierPart_blank hc) hpos
  have hle : identifierEnd s pos ≤ s.size := (Source.skipWhile_spec hpos).2.1
  rw [scanWord, scanWord, hstop, h.slice hle]

theorem digits_front (hpos : pos ≤ s.size) :
    t.skipWhile isDigitOrGap pos = s.skipWhile isDigitOrGap pos ∧ s.skipWhile isDigitOrGap pos ≤ s.size :=
  ⟨h.skipWhile (by rcases hc with rfl | rfl | rfl <;> decide) hpos, (Source.skipWhile_spec hpos).2.1⟩

theorem fractionEnd_front (hpos : pos ≤ s.size) :
    fractionEnd t pos = fractionEnd s pos ∧ fractionEnd s pos ≤ s.size := by
  obtain ⟨hwhole, hle⟩ := digits_front h hc hpos
  rw [fractionEnd, fractionEnd, hwhole, beq_front h hc (by decide) hle]
  split
  · rename_i hdot
    exact digits_front h hc (Source.lt_size_of_charAt (by rw [eq_of_beq hdot]; decide))
  · exact ⟨rfl, hle⟩

theorem exponentEnd_front (hpos : pos ≤ s.size) :
    exponentEnd t pos = exponentEnd s pos ∧ exponentEnd s pos ≤ s.size := by
  rw [exponentEnd, exponentEnd, beq_front h hc (by decide) hpos, beq_front h hc (by decide) hpos]
  split
  · rename_i hletter
    have hnext : pos + 1 ≤ s.size := by
      refine Source.lt_size_of_charAt ?_
      rcases Bool.or_eq_true_iff.mp hletter with he | he <;> rw [eq_of_beq he] <;> decide
    have hsame : exponentStart t pos = exponentStart s pos := by
      rw [exponentStart, exponentStart, beq_front h hc (by decide) hnext, beq_front h hc (by decide) hnext]
    have hstart : exponentStart s pos ≤ s.size := by
      rw [exponentStart]
      split
      · rename_i hsign
        refine Source.lt_size_of_charAt ?_
        rcases Bool.or_eq_true_iff.mp hsign with he | he <;> rw [eq_of_beq he] <;> decide
      · exact hnext
    rw [hsame, h.test (p := Char.isDigit) (by rcases hc with rfl | rfl | rfl <;> decide) hstart]
    split
    · exact digits_front h hc hstart
    · exact ⟨rfl, hpos⟩
  · exact ⟨rfl, hpos⟩

theorem numeralEnd_front (hpos : pos < s.size) :
    numeralEnd t pos = numeralEnd s pos ∧ numeralEnd s pos ≤ s.size := by
  have hradix : ['x', 'X', 'o', 'O', 'b', 'B'].contains (t.charAt (pos + 1)) =
      ['x', 'X', 'o', 'O', 'b', 'B'].contains (s.charAt (pos + 1)) :=
    h.test (p := fun d => ['x', 'X', 'o', 'O', 'b', 'B'].contains d) (by rcases hc with rfl | rfl | rfl <;> decide) hpos
  rw [numeralEnd, numeralEnd, h.charAt hpos, hradix]
  split
  · rename_i hbase
    have hnext : pos + 2 ≤ s.size := by
      refine Source.lt_size_of_charAt fun hnul => ?_
      rw [hnul] at hbase
      exact absurd (Bool.and_eq_true_iff.mp hbase).2 (by decide)
    exact ⟨h.skipWhile (by rcases hc with rfl | rfl | rfl <;> decide) hnext, (Source.skipWhile_spec hnext).2.1⟩
  · obtain ⟨hfraction, hle⟩ := fractionEnd_front h hc (Nat.le_of_lt hpos)
    rw [decimalEnd_eq, decimalEnd_eq, hfraction]
    exact exponentEnd_front h hc hle

theorem scanNumber_front (hpos : pos < s.size) : scanNumber t pos = scanNumber s pos := by
  obtain ⟨hend, hle⟩ := numeralEnd_front h hc hpos
  rw [scanNumber_eq, scanNumber_eq, hend, beq_front h hc (by decide) hle]
  split
  · rename_i hmark
    have hlt : numeralEnd s pos + 1 ≤ s.size := Source.lt_size_of_charAt (by rw [eq_of_beq hmark]; decide)
    rw [Lexeme.verbatim, Lexeme.verbatim, h.slice hlt]
  · rw [Lexeme.verbatim, Lexeme.verbatim, h.slice hle]

theorem scanPunctuation_front (hpos : pos < s.size) : scanPunctuation t pos = scanPunctuation s pos := by
  have hbytes : ∀ row ∈ TokenKind.punctuation,
      row.1.tail.all (fun b => decide (Char.ofUInt8 b ∉ [' ', '\n', ';'])) = true ∧
      (row.2 = .punct .questionDot → row.1 = [0x3f, 0x2e]) := by
    decide +kernel
  have hrow : ∀ row ∈ TokenKind.punctuation,
      (t.holdsAt pos row.1 && !(row.2 == .punct .questionDot && (t.charAt (pos + 2)).isDigit)) =
        (s.holdsAt pos row.1 && !(row.2 == .punct .questionDot && (s.charAt (pos + 2)).isDigit)) := by
    intro row hrow
    obtain ⟨hblank, hquestion⟩ := hbytes row hrow
    have hnone : ∀ b ∈ row.1.tail, Char.ofUInt8 b ≠ c := by
      rintro b hb rfl
      exact of_decide_eq_true (List.all_eq_true.mp hblank b hb) (by simpa using hc)
    have hsame : t.holdsAt pos row.1 = s.holdsAt pos row.1 := h.holdsAt hnone hpos
    rw [hsame]
    cases hholds : s.holdsAt pos row.1 with
    | false => rfl
    | true =>
        cases hkind : row.2 == .punct .questionDot with
        | false => rfl
        | true =>
            rw [hquestion (eq_of_beq hkind)] at hholds
            have hnext : pos + 2 ≤ s.size := by
              simp only [Source.holdsAt, Bool.and_eq_true, decide_eq_true_eq] at hholds
              exact hholds.2.2
            rw [h.test (p := Char.isDigit) (by rcases hc with rfl | rfl | rfl <;> decide) hnext]
  rw [scanPunctuation, scanPunctuation, List.find?_congr hrow]

theorem scanLexeme_front (hpos : pos < s.size) (herror : (scanLexeme s pos).error = none) :
    scanLexeme t pos = scanLexeme s pos := by
  have hdigit : (t.charAt (pos + 1)).isDigit = (s.charAt (pos + 1)).isDigit :=
    h.test (p := Char.isDigit) (by rcases hc with rfl | rfl | rfl <;> decide) hpos
  have hstart : isIdentifierStart (t.charAt (pos + 1)) = isIdentifierStart (s.charAt (pos + 1)) :=
    h.test (by rcases hc with rfl | rfl | rfl <;> decide) hpos
  revert herror
  rw [scanLexeme, scanLexeme, h.charAt hpos]
  dsimp only
  rw [hdigit, hstart]
  split
  · rename_i hquote
    simp only [Bool.or_eq_true, beq_iff_eq] at hquote
    exact fun herror => scanString_agree h.agree hpos herror (scanString_fits hquote rfl).stop.le
  split
  · rename_i hquote
    exact fun herror => scanTemplate_agree h.agree herror (scanTemplate_fits (eq_of_beq hquote)).stop.le
  split
  · exact fun _ => scanNumber_front h hc hpos
  split
  · intro _
    rw [scanWord_front h hc hpos]
  split
  · exact fun _ => scanWord_front h hc (Nat.le_of_lt hpos)
  · exact fun _ => scanPunctuation_front h hc hpos

/-- A token of the shorter text is one of the larger text, if there is no error in it. -/
theorem scanAt_front (hkind : (scanAt s pos).1.kind ≠ .endOfFile) (herrors : (scanAt s pos).2 = []) :
    scanAt t pos = scanAt s pos := by
  revert hkind herrors
  rw [scanAt]
  split
  · exact fun hkind => absurd rfl hkind
  · rename_i hsize
    intro _ herrors
    have hlt : (triviaAt s pos).stop < s.size := Nat.lt_of_not_le hsize
    have htrivia : triviaAt t pos = triviaAt s pos :=
      triviaIn_front h hc hlt (Nat.le_refl _) (Nat.sub_le_sub_right (Nat.le_of_lt h.lt) _)
    have herror : (scanLexeme s (triviaAt s pos).stop).error = none :=
      Option.toList_eq_nil_iff.mp (List.append_eq_nil_iff.mp herrors).2
    rw [scanAt, htrivia, if_neg (Nat.not_le_of_lt (Nat.lt_trans hlt h.lt)), scanLexeme_front h hc hlt herror,
      List.map_eq_nil_iff.mp (List.append_eq_nil_iff.mp herrors).1]
    rfl

end

/-! ## Text that is stepped over -/

include h in
/-- What ends in the shorter text ends there in the larger one. -/
theorem groupEnd_front (hend : groupEnd s pos = some r) : groupEnd t pos = some r :=
  groupEnd_agree h.agree hend (opaqueEnd_ends s _ .group pos r hend).2.le

end Token

end PropContract
