import PropContract.Proofs.Token.Gap
import PropContract.Token.Lexer

/-!
# Looking ahead

The parser looks for the next token without scanning it. The plainer reading of blanks and comments that it
uses knows neither the Unicode line separators nor the no-break space: it stops at the first of them outside
of comments, and nowhere else short of the token.
-/

namespace PropContract

open Text

namespace Text.Source

variable {s : Source} {pos : Nat} {cs : List Char}

/-- The bytes from an offset on are those of the characters there. -/
theorem Rest.charAt_add (h : s.Rest pos cs) (i : Nat) :
    s.charAt (pos + i) = Char.ofUInt8 ((bytesOf cs)[i]?.getD 0) := by
  have hdrop : s.bytes.data.toList.drop (pos + i) = (bytesOf cs).drop i := by
    rw [← List.drop_drop, h.drop_bytes]
  rw [charAt_of_drop hdrop, List.head?_drop]

end Text.Source

namespace Token

variable {s : Source} {pos n m : Nat} {cs : List Char} {b b' : Bool}

/-- The blanks of more than one byte. -/
def isWideBlank (c : Char) : Bool := c == '\u2028' || c == '\u2029' || c == '\u00a0'

/-! ## Two readings of blanks and comments -/

theorem triviaIn_of_size_le (h : s.size ≤ pos) : triviaIn s n pos b = { stop := pos, lineBreak := b } := by
  have hnul := Source.charAt_of_size_le h
  cases n with
  | zero => rfl
  | succ n =>
      rw [triviaIn, hnul]
      rfl

theorem skipTriviaIn_of_size_le (h : s.size ≤ pos) : skipTriviaIn s n pos = pos := by
  have hnul := Source.charAt_of_size_le h
  cases n with
  | zero => rfl
  | succ n =>
      rw [skipTriviaIn, hnul]
      rfl

/-- A run of blanks and comments ends at the same place behind a line break or not. -/
theorem triviaIn_stop (hn : s.size - pos ≤ n) (hm : s.size - pos ≤ m) :
    (triviaIn s n pos b).stop = (triviaIn s m pos b').stop := by
  induction n generalizing pos m b b' with
  | zero => rw [triviaIn_of_size_le (by omega), triviaIn_of_size_le (by omega)]
  | succ n ih =>
      by_cases hsize : s.size ≤ pos
      · rw [triviaIn_of_size_le hsize, triviaIn_of_size_le hsize]
      obtain _ | m := m
      · omega
      have later {pos' : Nat} {b b' : Bool} (hlt : pos < pos') :
          (triviaIn s n pos' b).stop = (triviaIn s m pos' b').stop := ih (by omega) (by omega)
      rw [triviaIn, triviaIn]
      split
      · exact later (Nat.lt_succ_self pos)
      split
      · exact later (Nat.lt_succ_self pos)
      split
      · rename_i hcomment
        exact later (lt_lineCommentEnd (eq_of_beq (Bool.and_eq_true_iff.mp hcomment).1))
      split
      · cases hblock : blockCommentEnd s pos with
        | none => rfl
        | some found => exact later (blockCommentEnd_ends s pos found.1 (by rw [hblock]; rfl)).1
      split
      · exact later (by omega)
      split
      · exact later (by omega)
      · rfl

/-- What the plainer reading leaves is read on to the token. -/
theorem triviaIn_skipTriviaIn (hn : s.size - pos ≤ n) :
    (triviaIn s n pos b).stop = (triviaAt s (skipTriviaIn s n pos)).stop := by
  induction n generalizing pos b with
  | zero => exact triviaIn_stop hn (Nat.le_refl _)
  | succ n ih =>
      by_cases hsize : s.size ≤ pos
      · rw [skipTriviaIn_of_size_le hsize]
        exact triviaIn_stop hn (Nat.le_refl _)
      have later {pos' : Nat} {b : Bool} (hlt : pos < pos') :
          (triviaIn s n pos' b).stop = (triviaAt s (skipTriviaIn s n pos')).stop := ih (by omega)
      rw [skipTriviaIn]
      split
      · rename_i hblank
        rw [triviaIn]
        split
        · exact later (Nat.lt_succ_self pos)
        · rename_i hbreak
          rw [if_pos ((Bool.or_eq_true_iff.mp hblank).resolve_left hbreak)]
          exact later (Nat.lt_succ_self pos)
      rename_i hblank
      rw [Bool.or_eq_true, not_or] at hblank
      split
      · rename_i hcomment
        rw [triviaIn, if_neg hblank.1, if_neg hblank.2, if_pos hcomment]
        exact later (lt_lineCommentEnd (eq_of_beq (Bool.and_eq_true_iff.mp hcomment).1))
      rename_i hline
      split
      · rename_i hcomment
        rw [triviaIn, if_neg hblank.1, if_neg hblank.2, if_neg hline, if_pos hcomment]
        cases hblock : blockCommentEnd s pos with
        | none =>
            rw [triviaAt, Nat.sub_self]
            rfl
        | some found => exact later (blockCommentEnd_ends s pos found.1 (by rw [hblock]; rfl)).1
      · exact triviaIn_stop hn (Nat.le_refl _)

/-- Whether no ASCII blank and no comment begins at an offset. -/
structure Plain (s : Source) (pos : Nat) : Prop where
  lineBreak : isLineBreak (s.charAt pos) = false
  blank : isLineBlank (s.charAt pos) = false
  lineComment : (s.charAt pos == '/' && s.charAt (pos + 1) == '/') = false
  blockComment : (s.charAt pos == '/' && s.charAt (pos + 1) == '*') = false

theorem plain_of_size_le (h : s.size ≤ pos) : Plain s pos := by
  constructor <;> rw [Source.charAt_of_size_le h] <;> rfl

theorem plain_skipTriviaIn (hn : s.size - pos ≤ n) : Plain s (skipTriviaIn s n pos) := by
  induction n generalizing pos with
  | zero => exact plain_of_size_le (Nat.sub_eq_zero_iff_le.mp (Nat.le_zero.mp hn))
  | succ n ih =>
      by_cases hsize : s.size ≤ pos
      · rw [skipTriviaIn_of_size_le hsize]
        exact plain_of_size_le hsize
      have later {pos' : Nat} (hlt : pos < pos') : Plain s (skipTriviaIn s n pos') := ih (by omega)
      rw [skipTriviaIn]
      split
      · exact later (Nat.lt_succ_self pos)
      rename_i hblank
      rw [Bool.or_eq_true, not_or, Bool.not_eq_true, Bool.not_eq_true] at hblank
      split
      · rename_i hcomment
        exact later (lt_lineCommentEnd (eq_of_beq (Bool.and_eq_true_iff.mp hcomment).1))
      rename_i hline
      split
      · cases hblock : blockCommentEnd s pos with
        | none => exact plain_of_size_le (Nat.le_refl _)
        | some found => exact later (blockCommentEnd_ends s pos found.1 (by rw [hblock]; rfl)).1
      · rename_i hcomment
        exact ⟨hblank.1, hblank.2, Bool.eq_false_iff.mpr hline, Bool.eq_false_iff.mpr hcomment⟩

/-- Where no ASCII blank and no comment begins, the lexer's reading ends at once unless a wider blank stands
there. -/
theorem triviaAt_stop_eq_iff (h : s.Rest pos cs) (hplain : Plain s pos) :
    (triviaAt s pos).stop = pos ↔ cs.head?.any isWideBlank = false := by
  cases cs with
  | nil =>
      have hsize : s.size = pos := h.size_eq
      rw [triviaAt, hsize, Nat.sub_self]
      exact iff_of_true rfl rfl
  | cons c rest =>
      have hpos := h.lt_size
      obtain ⟨m, hm⟩ : ∃ m, s.size - pos = m + 1 := ⟨s.size - pos - 1, by omega⟩
      have later (width : Nat) (hbound : s.OnBoundary (pos + (width + 1))) (b : Bool) :
          (triviaIn s m (pos + (width + 1)) b).stop ≠ pos := by
        have hle : _ ≤ (triviaIn s m (pos + (width + 1)) b).stop := (triviaIn_spec hbound).1
        omega
      rw [triviaAt, hm, triviaIn, if_neg (Bool.eq_false_iff.mp hplain.lineBreak),
        if_neg (Bool.eq_false_iff.mp hplain.blank), if_neg (Bool.eq_false_iff.mp hplain.lineComment),
        if_neg (Bool.eq_false_iff.mp hplain.blockComment)]
      split
      · rename_i hseparator
        simp only [Bool.and_eq_true, Bool.or_eq_true, beq_iff_eq] at hseparator
        obtain ⟨⟨hlead, hnext⟩, hlast⟩ := hseparator
        obtain ⟨d, ds, heq, hd, -⟩ := separator_rest h hlead hnext hlast
        obtain ⟨rfl, rfl⟩ := List.cons.inj heq
        refine iff_of_false (later 2 ((Source.OnBoundary.add_of_lead ⟨_, h⟩ hpos).2 hlead) true) ?_
        rcases hd with rfl | rfl <;> exact Bool.noConfusion
      rename_i hseparator
      split
      · rename_i hspace
        simp only [Bool.and_eq_true, beq_iff_eq] at hspace
        obtain ⟨ds, heq⟩ := noBreakSpace_rest h hspace.1 hspace.2
        obtain ⟨rfl, rfl⟩ := List.cons.inj heq
        exact iff_of_false (later 1 ((Source.OnBoundary.add_of_lead ⟨_, h⟩ hpos).1 hspace.1) false) Bool.noConfusion
      · rename_i hspace
        refine iff_of_true rfl (Bool.eq_false_iff.mpr fun hwide => ?_)
        simp only [isWideBlank, List.head?_cons, Option.any_some, Bool.or_eq_true, beq_iff_eq] at hwide
        have hbyte := h.charAt_add
        rcases hwide with (rfl | rfl) | rfl
        · exact hseparator (by rw [← Nat.add_zero pos, hbyte 0, Nat.add_zero, hbyte 1, hbyte 2]; rfl)
        · exact hseparator (by rw [← Nat.add_zero pos, hbyte 0, Nat.add_zero, hbyte 1, hbyte 2]; rfl)
        · exact hspace (by rw [← Nat.add_zero pos, hbyte 0, Nat.add_zero, hbyte 1]; rfl)

/-- The token behind a run of blanks and comments is told by where the run ends. -/
theorem scanAt_of_stop {pos' : Nat} (h : (triviaAt s pos).stop = (triviaAt s pos').stop) :
    ∃ b, (scanAt s pos).1 = { (scanAt s pos').1 with afterLineBreak := b } := by
  refine ⟨(triviaAt s pos).lineBreak, ?_⟩
  rw [scanAt, scanAt, h]
  split <;> rfl

end Token

namespace Lexer

open Token

/-- Looking ahead from a boundary finds where the token begins that is scanned from there, unless it stops at
a blank of more than one byte. It never goes past the token, and the token is the one scanned from where
looking ahead stops. -/
theorem skipTrivia_eq_start_iff (l : Lexer) {pos : Nat} (h : l.source.OnBoundary pos) :
    ∃ cs, l.source.Rest (skipTrivia l.source pos) cs ∧
      (skipTrivia l.source pos = (l.resetTo pos).scan.token.start ↔ cs.head?.any isWideBlank = false) ∧
      skipTrivia l.source pos ≤ (l.resetTo pos).scan.token.start ∧
      ∃ b, (l.resetTo pos).scan.token =
        { (l.resetTo (skipTrivia l.source pos)).scan.token with afterLineBreak := b } := by
  obtain ⟨cs, hcs⟩ : l.source.OnBoundary (skipTrivia l.source pos) := (skipTriviaIn_spec h).2
  have hstop : (triviaAt l.source pos).stop = (triviaAt l.source (skipTrivia l.source pos)).stop :=
    triviaIn_skipTriviaIn (Nat.le_refl _)
  have hscan {p : Nat} (hp : l.source.OnBoundary p) : (l.resetTo p).scan.token = (scanAt l.source p).1 := by
    rw [scan, resetTo]
    dsimp only
    rw [Nat.min_eq_left hp.le]
  have hstart : (l.resetTo pos).scan.token.start = (triviaAt l.source pos).stop := by
    rw [hscan h, scanAt]
    split <;> rfl
  refine ⟨cs, hcs, ?_, ?_, ?_⟩
  · rw [hstart, hstop, eq_comm]
    exact triviaAt_stop_eq_iff hcs (plain_skipTriviaIn (Nat.le_refl _))
  · rw [hstart, hstop]
    exact (triviaIn_spec ⟨cs, hcs⟩).1
  · rw [hscan h, hscan ⟨cs, hcs⟩]
    exact scanAt_of_stop hstop

/-- A line separator in a comment is passed over, a no-break space behind the comment is not. -/
theorem skipTrivia_eq_start_iff_comment :
    skipTrivia (.ofString "f /* \u2028 */\u00a0(x)") 1 = 11 ∧
      ((ofString "f /* \u2028 */\u00a0(x)").resetTo 1).scan.token.start ≠ 11 ∧
      ∃ b, ((ofString "f /* \u2028 */\u00a0(x)").resetTo 1).scan.token =
        { ((ofString "f /* \u2028 */\u00a0(x)").resetTo 11).scan.token with afterLineBreak := b } := by
  have hzero := (Source.ofString "f /* \u2028 */\u00a0(x)").rest_zero
  have hbound : (ofString "f /* \u2028 */\u00a0(x)").source.OnBoundary 1 :=
    ⟨_, Source.Rest.drop (show Source.Rest _ 0 (['f'] ++ _) from hzero)⟩
  have hhere : (Source.ofString "f /* \u2028 */\u00a0(x)").Rest 11 ['\u00a0', '(', 'x', ')'] :=
    Source.Rest.drop (show Source.Rest _ 0 ("f /* \u2028 */".toList ++ _) from hzero)
  have hskip : skipTrivia (ofString "f /* \u2028 */\u00a0(x)").source 1 = 11 := by decide +kernel
  obtain ⟨cs, hcs, hiff, -, htoken⟩ := skipTrivia_eq_start_iff (ofString "f /* \u2028 */\u00a0(x)") hbound
  rw [hskip] at hcs hiff htoken
  obtain rfl := hcs.unique hhere
  exact ⟨hskip, fun heq => Bool.noConfusion (hiff.mp heq.symm), htoken⟩

/-- Looking ahead does not find the arrow behind a no-break space. -/
theorem skipTrivia_ne_start :
    (ofString "(x)\u00a0=> x").source.OnBoundary 3 ∧
      skipTrivia (ofString "(x)\u00a0=> x").source 3 = 3 ∧
      ((ofString "(x)\u00a0=> x").resetTo 3).scan.token.start = 5 :=
  ⟨⟨_, Source.Rest.drop (show Source.Rest _ 0 ("(x)".toList ++ _) from (Source.ofString "(x)\u00a0=> x").rest_zero)⟩,
    by decide +kernel, by decide +kernel⟩

end Lexer

end PropContract
