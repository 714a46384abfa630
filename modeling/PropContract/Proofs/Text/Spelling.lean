import PropContract.Text.Escape

/-!
# Ways to write a string

Between quotes a character may be written as itself, behind a backslash, by a letter or by its number, and
lines may be joined anywhere. Whichever way is chosen, reading gives the character back.
-/

namespace PropContract.Text.Escape

/-! ## Hexadecimal numbers -/

/-- Whether a character is the digit of a number below sixteen, in either case. -/
def IsHexDigit (d : Char) (k : Nat) : Prop :=
  k < 16 ∧ (d = Nat.digitChar k ∨ d = (Nat.digitChar k).toUpper)

/-- Whether characters are the digits of a number, with any zeros before them. -/
inductive HexNumeral : List Char → Nat → Prop
  | nil : HexNumeral [] 0
  | snoc {ds : List Char} {d : Char} {n k : Nat} (higher : HexNumeral ds n) (lowest : IsHexDigit d k) :
      HexNumeral (ds ++ [d]) (n * 16 + k)

variable {quote c d : Char} {ds raw after value : List Char} {n k : Nat}

theorem IsHexDigit.hexValue (h : IsHexDigit d k) : hexValue d = some k := by
  have hall : ∀ k < 16, Escape.hexValue (Nat.digitChar k) = some k ∧
      Escape.hexValue (Nat.digitChar k).toUpper = some k := by
    decide
  obtain ⟨hk, rfl | rfl⟩ := h
  · exact (hall k hk).1
  · exact (hall k hk).2

theorem IsHexDigit.plain (h : IsHexDigit d k) : d ∉ ['"', '\'', '\\', '\n', '+', '{', '}'] := by
  have hall : ∀ k < 16, Nat.digitChar k ∉ ['"', '\'', '\\', '\n', '+', '{', '}'] ∧
      (Nat.digitChar k).toUpper ∉ ['"', '\'', '\\', '\n', '+', '{', '}'] := by
    decide
  obtain ⟨hk, rfl | rfl⟩ := h
  · exact (hall k hk).1
  · exact (hall k hk).2

theorem HexNumeral.plain (h : HexNumeral ds n) : ∀ d ∈ ds, d ∉ ['"', '\'', '\\', '\n', '+', '{', '}'] := by
  induction h with
  | nil => exact fun _ hd => absurd hd List.not_mem_nil
  | snoc _ lowest ih =>
      intro d hd
      rcases List.mem_append.mp hd with hd | hd
      · exact ih d hd
      · rw [List.mem_singleton.mp hd]
        exact lowest.plain

theorem HexNumeral.hexNumber (h : HexNumeral ds n) : hexNumber ds = some n := by
  induction h with
  | nil => rfl
  | snoc _ lowest ih =>
      rw [Escape.hexNumber] at ih ⊢
      rw [List.foldl_append, ih, List.foldl_cons, List.foldl_nil, lowest.hexValue]
      rfl

theorem HexNumeral.codePoint (h : HexNumeral ds c.toNat) (hne : ds ≠ []) : codePoint ds = c := by
  obtain ⟨d, rest, rfl⟩ := List.exists_cons_of_ne_nil hne
  have hplus : ∀ cs, d :: rest = '+' :: cs → False := by
    intro cs heq
    exact h.plain d List.mem_cons_self (by simp [(List.cons.inj heq).1])
  have hvalid : c.toNat.isValidChar := c.valid
  rw [Escape.codePoint]
  · simp only [List.isEmpty_cons, Bool.false_eq_true, if_false, h.hexNumber]
    rw [if_pos hvalid, Char.ofNat_toNat]
  · exact hplus

/-! ## Characters and strings -/

/-- Whether `raw`, between such quotes and in front of `after`, is a way to write a character. -/
inductive WritesChar (quote : Char) : (c : Char) → (raw after : List Char) → Prop
  | itself {c : Char} {after : List Char} (hc : c ∉ [quote, '\\', '\n']) : WritesChar quote c [c] after
  | escaped {c : Char} {after : List Char} (hdigit : c.isDigit = false) (hline : c ∉ ['\n', '\r', '\u2028', '\u2029'])
      (hletter : c ∉ ['n', 't', 'r', 'b', 'f', 'v', 'x', 'u']) : WritesChar quote c ['\\', c] after
  | letter {e c : Char} {after : List Char} (hletter : (e, c) ∈ [('n', '\n'), ('t', '\t'), ('r', '\r'),
      ('b', '\x08'), ('f', '\x0c'), ('v', '\x0b')]) : WritesChar quote c ['\\', e] after
  | zero {after : List Char} (hafter : ∀ d ∈ after.head?, d.isDigit = false) :
      WritesChar quote '\x00' ['\\', '0'] after
  | twoDigits {c : Char} {ds after : List Char} (hlength : ds.length = 2) (hds : HexNumeral ds c.toNat) :
      WritesChar quote c ('\\' :: 'x' :: ds) after
  | fourDigits {c : Char} {ds after : List Char} (hlength : ds.length = 4) (hds : HexNumeral ds c.toNat) :
      WritesChar quote c ('\\' :: 'u' :: ds) after
  | braced {c : Char} {ds after : List Char} (hne : ds ≠ []) (hds : HexNumeral ds c.toNat) :
      WritesChar quote c ('\\' :: 'u' :: '{' :: (ds ++ ['}'])) after

/-- The line breaks that a backslash joins. -/
def lineBreaks : List (List Char) := [['\n'], ['\r'], ['\r', '\n'], ['\u2028'], ['\u2029']]

/-- Whether `raw`, between such quotes, is a way to write the characters `value`. -/
inductive Writes (quote : Char) : (raw value : List Char) → Prop
  | nil : Writes quote [] []
  | char {c : Char} {raw after value : List Char} (first : WritesChar quote c raw after)
      (rest : Writes quote after value) : Writes quote (raw ++ after) (c :: value)
  | joined {lineBreak after value : List Char} (hbreak : lineBreak ∈ lineBreaks) (rest : Writes quote after value) :
      Writes quote ('\\' :: (lineBreak ++ after)) value

/-- A line feed is never written as itself. -/
theorem Writes.head_ne (h : Writes quote raw value) : raw.head? ≠ some '\n' := by
  cases h with
  | nil => simp
  | char first =>
      cases first with
      | itself hc =>
          intro hhead
          rw [List.singleton_append, List.head?_cons, Option.some.injEq] at hhead
          simp [hhead] at hc
      | _ => simp
  | joined => simp

/-- A character that is not written as itself is what stands behind a backslash. -/
theorem WritesChar.read (h : WritesChar quote c raw after) :
    raw = [c] ∧ c ≠ '\\' ∨ ∃ rest, raw = '\\' :: rest ∧ afterBackslash (rest ++ after) = ([c], after) := by
  cases h with
  | itself hc =>
      refine .inl ⟨rfl, ?_⟩
      rintro rfl
      simp at hc
  | escaped hdigit hline hletter =>
      refine .inr ⟨[c], rfl, ?_⟩
      have hzero : c ≠ '0' := by
        rintro rfl
        cases hdigit
      simp only [List.mem_cons, List.not_mem_nil, or_false, not_or] at hline hletter
      simp [afterBackslash, letter?, isLineTerminator, hline, hletter, hzero]
  | letter hletter =>
      refine .inr ⟨_, rfl, ?_⟩
      simp only [List.mem_cons, List.not_mem_nil, or_false, Prod.mk.injEq] at hletter
      rcases hletter with ⟨rfl, rfl⟩ | ⟨rfl, rfl⟩ | ⟨rfl, rfl⟩ | ⟨rfl, rfl⟩ | ⟨rfl, rfl⟩ | ⟨rfl, rfl⟩ <;> rfl
  | zero hafter =>
      refine .inr ⟨['0'], rfl, ?_⟩
      have hnone : after.head?.any Char.isDigit = false := by
        cases hhead : after.head? with
        | none => rfl
        | some d => exact hafter d hhead
      simp [afterBackslash, letter?, hnone]
  | @twoDigits _ ds _ hlength hds =>
      refine .inr ⟨'x' :: ds, rfl, ?_⟩
      have hne : ds ≠ [] := List.ne_nil_of_length_pos (by omega)
      rw [List.cons_append, afterBackslash, List.take_left' hlength, List.drop_left' hlength, hds.codePoint hne]
  | @fourDigits _ ds _ hlength hds =>
      refine .inr ⟨'u' :: ds, rfl, ?_⟩
      have hne : ds ≠ [] := List.ne_nil_of_length_pos (by omega)
      have hbrace : ∀ cs, ds ++ after ≠ '{' :: cs := by
        obtain ⟨d, rest, rfl⟩ := List.exists_cons_of_ne_nil hne
        intro cs heq
        exact hds.plain d List.mem_cons_self (by simp [(List.cons.inj heq).1])
      rw [List.cons_append, afterBackslash, List.take_left' hlength, List.drop_left' hlength, hds.codePoint hne]
      exact hbrace
  | @braced _ ds _ hne hds =>
      refine .inr ⟨'u' :: '{' :: (ds ++ ['}']), rfl, ?_⟩
      have hbrace : ∀ d ∈ ds, (d != '}') = true := by
        intro d hd
        rw [bne_iff_ne]
        rintro rfl
        exact hds.plain _ hd (by simp)
      have hsplit : 'u' :: '{' :: (ds ++ ['}']) ++ after = 'u' :: '{' :: (ds ++ '}' :: after) := by simp
      rw [hsplit, afterBackslash, List.takeWhile_append_of_pos hbrace, List.dropWhile_append_of_pos hbrace]
      simp [hds.codePoint hne]

/-- Joined lines stand for nothing. -/
theorem afterBackslash_lineBreak {lineBreak : List Char} (hbreak : lineBreak ∈ lineBreaks)
    (h : after.head? ≠ some '\n') : afterBackslash (lineBreak ++ after) = ([], after) := by
  simp only [lineBreaks, List.mem_cons, List.not_mem_nil, or_false] at hbreak
  rcases hbreak with rfl | rfl | rfl | rfl | rfl
  · rfl
  · have hfeed : ∀ cs, after ≠ '\n' :: cs := by
      rintro cs rfl
      exact h rfl
    rw [List.singleton_append, afterBackslash]
    exact hfeed
  · rfl
  · rfl
  · rfl

/-- Reading gives back what is written, in whichever way. -/
theorem decodeUpTo_writes (h : Writes quote raw value) (hn : raw.length ≤ n) : decodeUpTo n raw = value := by
  induction h generalizing n with
  | nil => cases n <;> rfl
  | @char c raw after value first _ ih =>
      rw [List.length_append] at hn
      obtain ⟨rfl, hne⟩ | ⟨rest, rfl, hread⟩ := first.read
      · obtain ⟨n, rfl⟩ : ∃ m, n = m + 1 := ⟨n - 1, by simp at hn; omega⟩
        rw [List.singleton_append, decodeUpTo, ih (by simp at hn; omega)]
        exact hne
      · rw [List.length_cons] at hn
        obtain ⟨n, rfl⟩ : ∃ m, n = m + 1 := ⟨n - 1, by omega⟩
        rw [List.cons_append, decodeUpTo, hread]
        dsimp only
        rw [ih (by omega), List.singleton_append]
  | @joined lineBreak after value hbreak rest ih =>
      rw [List.length_cons, List.length_append] at hn
      obtain ⟨n, rfl⟩ : ∃ m, n = m + 1 := ⟨n - 1, by omega⟩
      rw [decodeUpTo, afterBackslash_lineBreak hbreak rest.head_ne]
      dsimp only
      rw [ih (by omega), List.nil_append]

theorem decodeString_writes (h : Writes quote raw value) : decodeString (String.ofList raw) = String.ofList value := by
  rw [decodeString, decode, String.toList_ofList, decodeUpTo_writes h (Nat.le_refl _)]

end PropContract.Text.Escape
