import PropContract.Proofs.Token.Fits

/-!
# Where lexical errors lie

An error in a token covers the token, and one before it covers an open comment to the end of the text.
Scanned from a character boundary, they all lie on whole characters.
-/

namespace PropContract

open Text

namespace Message

/-- Whether a message is about syntax, by its code. -/
def isSyntax (m : Message) : Bool := 1000 ≤ m.code && m.code < 2000

/-- Whether a message is about syntax and lies on whole characters. -/
structure LiesAt (m : Message) (src : Source) (start length : Nat) : Prop where
  syntactic : m.isSyntax
  first : src.OnBoundary start
  last : src.OnBoundary (start + length)

theorem LiesAt.between {m : Message} {src : Source} {start stop : Nat} (hm : m.isSyntax)
    (hstart : src.OnBoundary start) (hstop : src.OnBoundary stop) (hle : start ≤ stop) :
    m.LiesAt src start (stop - start) :=
  ⟨hm, hstart, (Nat.add_sub_cancel' hle).symm ▸ hstop⟩

end Message

/-- Whether a lexical error lies on whole characters. -/
def LexicalError.LiesIn (src : Source) (e : LexicalError) : Prop :=
  e.message.LiesAt src e.start e.length

namespace Token

variable {s : Source} {pos n : Nat} {e : LexicalError}

/-! ## Errors in a token -/

/-- Whether an error is about syntax and covers the text between two offsets. -/
structure Covers (start stop : Nat) (e : LexicalError) : Prop where
  syntactic : e.message.isSyntax
  start_eq : e.start = start
  length_eq : e.length = stop - start

theorem Covers.liesIn {start stop : Nat} (h : Covers start stop e) (hstart : s.OnBoundary start)
    (hstop : s.OnBoundary stop) (hle : start ≤ stop) : e.LiesIn s := by
  rw [LexicalError.LiesIn, h.start_eq, h.length_eq]
  exact .between h.syntactic hstart hstop hle

theorem scanString_covers {quote : Char} (h : (scanString s pos quote).error = some e) :
    Covers pos (scanString s pos quote).stop e := by
  rw [scanString] at h ⊢
  generalize stringContentsIn s quote (s.size - pos) (pos + 1) = found at h ⊢
  obtain ⟨stop, closed⟩ := found
  cases closed with
  | true => cases h
  | false =>
      obtain rfl := Option.some.inj h
      exact ⟨rfl, rfl, rfl⟩

theorem scanTemplate_covers (h : (scanTemplate s pos).error = some e) :
    Covers pos (scanTemplate s pos).stop e := by
  rw [scanTemplate] at h ⊢
  generalize templateLiteralEnd s pos = found at h ⊢
  rcases found with - | ⟨stop, substituted⟩
  · obtain rfl := Option.some.inj h
    exact ⟨rfl, rfl, rfl⟩
  · cases substituted <;> cases h

theorem scanPunctuation_covers (h : (scanPunctuation s pos).error = some e) :
    Covers pos (scanPunctuation s pos).stop e := by
  rw [scanPunctuation] at h ⊢
  generalize TokenKind.punctuation.find? _ = found at h ⊢
  rcases found with - | ⟨w, kind⟩
  · obtain rfl := Option.some.inj h
    exact ⟨rfl, rfl, (Nat.add_sub_cancel_left (n := pos) (m := 1)).symm⟩
  · cases h

theorem scanNumber_error (s : Source) (pos : Nat) : (scanNumber s pos).error = none := by
  rw [scanNumber]
  split <;> split <;> rfl

/-- The error in a lexeme covers it. -/
theorem scanLexeme_covers (h : (scanLexeme s pos).error = some e) :
    Covers pos (scanLexeme s pos).stop e := by
  rw [scanLexeme] at h ⊢
  dsimp only at h ⊢
  split at h
  · rename_i hquote
    rw [if_pos hquote]
    exact scanString_covers h
  rename_i hquote
  rw [if_neg hquote]
  split at h
  · rename_i htick
    rw [if_pos htick]
    exact scanTemplate_covers h
  rename_i htick
  rw [if_neg htick]
  split at h
  · rw [scanNumber_error] at h
    cases h
  rename_i hnumber
  rw [if_neg hnumber]
  split at h
  · cases h
  rename_i hhash
  rw [if_neg hhash]
  split at h
  · cases h
  · rename_i hword
    rw [if_neg hword]
    exact scanPunctuation_covers h

/-! ## Errors before a token -/

/-- A comment that is never closed begins on a boundary. -/
theorem triviaIn_unclosed {lineBreak : Bool} {open_ : Nat} (h : s.OnBoundary pos)
    (hopen : (triviaIn s n pos lineBreak).unclosed = some open_) : s.OnBoundary open_ := by
  induction n generalizing pos lineBreak with
  | zero => cases hopen
  | succ n ih =>
      rw [triviaIn] at hopen
      split at hopen
      · rename_i hblank
        exact ih (onBoundary_succ_of_blank (.inl hblank)) hopen
      split at hopen
      · rename_i hblank
        exact ih (onBoundary_succ_of_blank (.inr hblank)) hopen
      split at hopen
      · exact ih (onBoundary_lineCommentEnd s pos) hopen
      split at hopen
      · split at hopen
        · rename_i stop broken hblock
          exact ih (blockCommentEnd_ends s pos stop (by rw [hblock]; rfl)).2 hopen
        · obtain rfl := Option.some.inj hopen
          exact h
      split at hopen
      · rename_i hseparator
        simp only [Bool.and_eq_true, beq_iff_eq] at hseparator
        have hpos : pos < s.size := Source.lt_size_of_charAt (by rw [hseparator.1.1]; decide)
        exact ih ((h.add_of_lead hpos).2 hseparator.1.1) hopen
      split at hopen
      · rename_i hspace
        simp only [Bool.and_eq_true, beq_iff_eq] at hspace
        have hpos : pos < s.size := Source.lt_size_of_charAt (by rw [hspace.1]; decide)
        exact ih ((h.add_of_lead hpos).1 hspace.1) hopen
      · cases hopen

/-! ## Errors of a scan -/

theorem scanAt_liesIn (h : s.OnBoundary pos) : ∀ e ∈ (scanAt s pos).2, e.LiesIn s := by
  obtain ⟨-, hstart⟩ := @triviaIn_spec s pos (s.size - pos) false h
  have hbefore : ∀ e ∈ (triviaAt s pos).unclosed.toList.map fun open_ =>
      ({ start := open_, length := s.size - open_, message := .unterminatedComment } : LexicalError),
      e.LiesIn s := by
    intro e he
    obtain ⟨open_, hopen, rfl⟩ := List.mem_map.mp he
    have hbound := triviaIn_unclosed h (Option.mem_toList.mp hopen)
    exact Message.LiesAt.between rfl hbound s.onBoundary_size hbound.le
  rw [scanAt]
  dsimp only
  split
  · exact hbefore
  · rename_i hsize
    have hfits := scanLexeme_fits hstart (Nat.lt_of_not_le hsize)
    intro e he
    rcases List.mem_append.mp he with he | he
    · exact hbefore e he
    · exact (scanLexeme_covers (Option.mem_toList.mp he)).liesIn hstart hfits.stop (Nat.le_of_lt hfits.lt)

theorem asRegex_liesIn {t : Token} (h : t.Fits s) : ∀ e ∈ (t.asRegex s).2, e.LiesIn s := by
  obtain ⟨hfits, -, -⟩ := asRegex_fits h
  rw [asRegex] at hfits ⊢
  split
  · rename_i hkind
    rw [if_pos hkind] at hfits
    split
    · rintro _ ⟨⟩
    · rename_i hnone
      rw [hnone] at hfits
      rintro e he
      obtain rfl := List.mem_singleton.mp he
      exact Message.LiesAt.between rfl hfits.start hfits.stop hfits.le
  · rintro _ ⟨⟩

end Token

end PropContract
