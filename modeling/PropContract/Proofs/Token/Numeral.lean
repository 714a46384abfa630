import PropContract.Proofs.Text.Numeral
import PropContract.Proofs.Token.Fits

/-!
# Numbers as tokens

What the scanner takes for a number is written as one.
-/

namespace PropContract

namespace Text.Source

variable {s : Source} {pos stop : Nat} {p : Char → Bool}

theorem OnBoundary.between_refl (h : s.OnBoundary pos) : s.Between pos pos (String.ofList []) := by
  obtain ⟨cs, hrest⟩ := h
  exact ⟨cs, by simpa using hrest, by simp⟩

/-- Characters of ASCII in a row. -/
theorem OnBoundary.between_ascii (hp : ∀ c, p c = true → c.toNat < 0x80) (hpos : s.OnBoundary pos)
    (hle : pos ≤ stop) (hstop : stop ≤ s.size) (hall : ∀ i, pos ≤ i → i < stop → p (s.charAt i) = true) :
    ∃ ds, (∀ c ∈ ds, p c = true) ∧ s.Between pos stop (String.ofList ds) ∧
      (pos < stop → s.charAt pos ∈ ds) := by
  obtain ⟨n, rfl⟩ := Nat.exists_eq_add_of_le hle
  induction n generalizing pos with
  | zero => exact ⟨[], by simp, hpos.between_refl, fun hlt => absurd hlt (Nat.lt_irrefl _)⟩
  | succ n ih =>
      have hc := hall pos (Nat.le_refl _) (by omega)
      obtain ⟨cs, hrest⟩ := rest_of_charAt (by omega) (hp _ hc)
      have hfirst : s.Between pos (pos + 1) (String.singleton (s.charAt pos)) :=
        ⟨cs, by simpa using hrest, by rw [String.toList_singleton, width_ascii (hp _ hc), width_nil]⟩
      obtain ⟨ds, hds, hbetween, -⟩ := ih ⟨cs, hrest.tail (hp _ hc)⟩ (by omega) (by omega)
        fun i hi hlt => hall i (by omega) (by omega)
      refine ⟨s.charAt pos :: ds, List.forall_mem_cons.mpr ⟨hc, hds⟩, ?_, fun _ => List.mem_cons_self⟩
      rw [String.ofList_cons, Nat.add_comm n, ← Nat.add_assoc]
      exact hfirst.append hbetween

/-- The characters that are skipped, if they are of ASCII. -/
theorem OnBoundary.between_skipWhile (hp : ∀ c, p c = true → c.toNat < 0x80) (hpos : s.OnBoundary pos) :
    ∃ ds, (∀ c ∈ ds, p c = true) ∧ s.Between pos (s.skipWhile p pos) (String.ofList ds) ∧
      (pos < s.skipWhile p pos → s.charAt pos ∈ ds) := by
  obtain ⟨hle, hsize, -, hall⟩ := skipWhile_spec (p := p) hpos.le
  exact hpos.between_ascii hp hle hsize hall

theorem skipWhile_eq_self (hpos : pos ≤ s.size) (hp : p (s.charAt pos) = false) : s.skipWhile p pos = pos := by
  obtain ⟨hle, -, -, hall⟩ := skipWhile_spec (p := p) hpos
  apply Nat.le_antisymm _ hle
  apply Nat.le_of_not_lt
  intro hlt
  rw [hall pos (Nat.le_refl _) hlt] at hp
  exact nomatch hp

end Text.Source

open Text Text.Numeral

def TokenKind.isNumber : TokenKind → Bool
  | .numeric | .bigInt => true
  | _ => false

namespace Token

variable {s : Source} {pos : Nat} {t : Token}

/-! ## Parts of a number -/

/-- A run of digits that begins with a digit, or may be empty. -/
theorem digits_between (hpos : s.OnBoundary pos) :
    ∃ ds, (∀ c ∈ ds, isDigitOrGap c = true) ∧ s.Between pos (s.skipWhile isDigitOrGap pos) (String.ofList ds) ∧
      ((s.charAt pos).isDigit = true → ∃ c ∈ ds, c.isDigit = true) := by
  obtain ⟨ds, hds, hbetween, hmem⟩ :=
    hpos.between_skipWhile (p := isDigitOrGap) fun _ => ascii_of_isDigitOrGap
  refine ⟨ds, hds, hbetween, fun hdigit => ⟨_, hmem ?_, hdigit⟩⟩
  exact Source.lt_skipWhile (Source.onBoundary_of_charAt rfl (ascii_of_isDigit hdigit)).1
    (by rw [isDigitOrGap, hdigit, Bool.true_or])

theorem fractionEnd_between (hpos : s.OnBoundary pos)
    (h : (s.charAt pos).isDigit = true ∨ s.charAt pos = '.' ∧ (s.charAt (pos + 1)).isDigit = true) :
    ∃ whole fraction, (∀ c ∈ whole, isDigitOrGap c = true) ∧ IsFraction isDigitOrGap fraction ∧
      (∃ c ∈ whole ++ fraction, c.isDigit = true) ∧
      s.Between pos (fractionEnd s pos) (String.ofList (whole ++ fraction)) := by
  obtain ⟨whole, hwhole, hbetween, hdigit⟩ := digits_between hpos
  rw [fractionEnd]
  split
  · rename_i hdot
    rw [beq_iff_eq] at hdot
    obtain ⟨ds, hds, hbehind, hdigit'⟩ := digits_between (Source.onBoundary_of_charAt hdot (by decide)).2.2
    refine ⟨whole, '.' :: ds, hwhole, .point hds, ?_, ?_⟩
    · rcases h with h | ⟨hpoint, h⟩
      · obtain ⟨c, hc, h⟩ := hdigit h
        exact ⟨c, List.mem_append_left _ hc, h⟩
      · rw [Source.skipWhile_eq_self hpos.le (by rw [hpoint]; decide)] at hdigit'
        obtain ⟨c, hc, h⟩ := hdigit' h
        exact ⟨c, List.mem_append_right _ (List.mem_cons_of_mem _ hc), h⟩
    · rw [String.ofList_append, String.ofList_cons]
      exact hbetween.append ((Source.between_singleton hdot (by decide)).append hbehind)
  · rename_i hdot
    refine ⟨whole, [], hwhole, .none, ?_, by rwa [List.append_nil]⟩
    rcases h with h | ⟨hpoint, -⟩
    · rw [List.append_nil]
      exact hdigit h
    · rw [Source.skipWhile_eq_self hpos.le (by rw [hpoint]; decide), hpoint] at hdot
      exact absurd rfl hdot

theorem exponentEnd_between (hpos : s.OnBoundary pos) :
    ∃ exponent, IsExponent isDigitOrGap exponent ∧ s.Between pos (exponentEnd s pos) (String.ofList exponent) := by
  rcases exponentEnd_cases s pos with heq | ⟨hletter, hfirst, heq⟩
  · rw [heq]
    exact ⟨[], .none, hpos.between_refl⟩
  · rw [heq]
    rw [Bool.or_eq_true, beq_iff_eq, beq_iff_eq] at hletter
    have hascii : 0 < (s.charAt pos).toNat ∧ (s.charAt pos).toNat < 0x80 := by
      rcases hletter with h | h <;> rw [h] <;> decide
    have hmark := Source.between_singleton rfl hascii
    have hnext := (Source.onBoundary_of_charAt rfl hascii).2.2
    have hsign : ∃ sign ∈ [[], ['+'], ['-']],
        s.Between (pos + 1) (exponentStart s pos) (String.ofList sign) := by
      rw [exponentStart]
      split
      · rename_i hsign
        rw [Bool.or_eq_true, beq_iff_eq, beq_iff_eq] at hsign
        rcases hsign with h | h
        · refine ⟨['+'], by simp, ?_⟩
          rw [← String.singleton_eq_ofList]
          exact Source.between_singleton h (by decide)
        · refine ⟨['-'], by simp, ?_⟩
          rw [← String.singleton_eq_ofList]
          exact Source.between_singleton h (by decide)
      · exact ⟨[], by simp, hnext.between_refl⟩
    obtain ⟨sign, hmem, hsign⟩ := hsign
    obtain ⟨ds, hds, hbetween, hdigit⟩ :=
      digits_between (Source.onBoundary_of_charAt rfl (ascii_of_isDigit hfirst)).2.1
    refine ⟨_, .power hletter hmem hds (hdigit hfirst), ?_⟩
    rw [String.ofList_cons, String.ofList_append]
    exact hmark.append (hsign.append hbetween)

/-! ## Lexemes -/

theorem numeralEnd_between (hpos : s.OnBoundary pos)
    (h : (s.charAt pos).isDigit = true ∨ s.charAt pos = '.' ∧ (s.charAt (pos + 1)).isDigit = true) :
    ∃ cs, IsWritten cs ∧ s.Between pos (numeralEnd s pos) (String.ofList cs) := by
  rw [numeralEnd]
  split
  · rename_i hradix
    rw [Bool.and_eq_true, beq_iff_eq, List.contains_iff_mem] at hradix
    obtain ⟨hzero, hletter⟩ := hradix
    have hascii : 0 < (s.charAt (pos + 1)).toNat ∧ (s.charAt (pos + 1)).toNat < 0x80 := by
      have hall : ∀ c ∈ ['x', 'X', 'o', 'O', 'b', 'B'], 0 < c.toNat ∧ c.toNat < 0x80 := by simp
      exact hall _ hletter
    have hprefix := (Source.between_singleton hzero (by decide)).append (Source.between_singleton rfl hascii)
    obtain ⟨ds, hds, hbetween, -⟩ := (Source.onBoundary_of_charAt rfl hascii).2.2.between_skipWhile
      (p := fun c => isHexDigit c || c == '_') fun c hc => by
        rw [Bool.or_eq_true, beq_iff_eq] at hc
        rcases hc with hc | rfl
        · exact ascii_of_isHexDigit hc
        · decide
    refine ⟨_, .radix hletter hds, ?_⟩
    rw [String.ofList_cons, String.ofList_cons, ← String.append_assoc]
    exact hprefix.append hbetween
  · obtain ⟨whole, fraction, hwhole, hfraction, hdigit, hbetween⟩ := fractionEnd_between hpos h
    obtain ⟨-, hbound⟩ := fractionEnd_spec hpos (h.imp_right And.left)
    obtain ⟨exponent, hexponent, hbehind⟩ := exponentEnd_between hbound
    refine ⟨_, .decimal ⟨hdigit, hwhole, hfraction, hexponent⟩, ?_⟩
    rw [decimalEnd_eq, String.ofList_append]
    exact hbetween.append hbehind

/-- Whether a lexeme is no number, or one as it is written. -/
def Lexeme.Numbered (l : Lexeme) : Prop :=
  l.kind.isNumber = true → IsNumeral l.value

theorem Lexeme.Numbered.of_kind {l : Lexeme} (h : l.kind.isNumber = false) : l.Numbered :=
  fun hnumber => absurd (h.symm.trans hnumber) (by decide)

theorem scanNumber_numbered (hpos : s.OnBoundary pos)
    (h : (s.charAt pos).isDigit = true ∨ s.charAt pos = '.' ∧ (s.charAt (pos + 1)).isDigit = true) :
    (scanNumber s pos).Numbered := by
  intro _
  obtain ⟨cs, hcs, hbetween⟩ := numeralEnd_between hpos h
  rw [scanNumber_eq]
  split
  · rename_i hmark
    have hbig := hbetween.append (Source.between_singleton (beq_iff_eq.mp hmark) (by decide))
    refine ⟨cs, hcs, .inr ?_⟩
    rw [Lexeme.verbatim, hbig.slice]
    simp
  · refine ⟨cs, hcs, .inl ?_⟩
    rw [Lexeme.verbatim, hbetween.slice, String.toList_ofList]

theorem scanTemplate_numbered (s : Source) (pos : Nat) : (scanTemplate s pos).Numbered := by
  rw [scanTemplate]
  split
  · exact .of_kind rfl
  · exact .of_kind rfl
  · exact .of_kind rfl

theorem scanWord_numbered (s : Source) (pos : Nat) : (scanWord s pos).Numbered := by
  rw [scanWord]
  split
  · exact .of_kind rfl
  · exact .of_kind rfl

theorem scanPunctuation_numbered (s : Source) (pos : Nat) : (scanPunctuation s pos).Numbered := by
  rw [scanPunctuation]
  dsimp only
  split
  · rename_i hfind
    obtain ⟨⟨p, rfl⟩ | ⟨op, rfl⟩, -⟩ := punctuation_spec _ (List.mem_of_find?_eq_some hfind)
    · exact .of_kind rfl
    · exact .of_kind rfl
  · exact .of_kind rfl

theorem scanLexeme_numbered (hpos : s.OnBoundary pos) : (scanLexeme s pos).Numbered := by
  rw [scanLexeme]
  split_ifs with hquote htick hdigit hprivate hword
  · exact .of_kind rfl
  · exact scanTemplate_numbered s pos
  · rw [Bool.or_eq_true, Bool.and_eq_true, beq_iff_eq] at hdigit
    exact scanNumber_numbered hpos hdigit
  · exact .of_kind rfl
  · exact scanWord_numbered s pos
  · exact scanPunctuation_numbered s pos

/-! ## Tokens -/

/-- Whether a token is no number, or one as it is written. -/
def Numbered (t : Token) : Prop :=
  t.kind.isNumber = true → IsNumeral t.value

theorem Numbered.of_kind (h : t.kind.isNumber = false) : t.Numbered :=
  fun hnumber => absurd (h.symm.trans hnumber) (by decide)

theorem scanAt_numbered (hpos : s.OnBoundary pos) : (scanAt s pos).1.Numbered := by
  obtain ⟨-, hstart⟩ := @triviaIn_spec s pos (s.size - pos) false hpos
  rw [scanAt]
  dsimp only
  split
  · exact .of_kind rfl
  · exact scanLexeme_numbered hstart

theorem Numbered.asRegex (h : t.Numbered) : (t.asRegex s).1.Numbered := by
  rw [Token.asRegex]
  split
  · split
    · exact .of_kind rfl
    · exact .of_kind rfl
  · exact h

end Token

end PropContract
