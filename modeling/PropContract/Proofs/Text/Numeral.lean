import Mathlib.Data.List.Induction
import PropContract.Text.Numeral
import PropContract.Token.Scan

/-!
# Written numerals

How a number is written: in decimal with an optional fraction and exponent, or in another base behind its
prefix, with underscores anywhere among the digits. A decimal number always has a value. A number in another
base has none if it has no digits, a digit outside of its base, or more than 64 bits.
-/

namespace PropContract.Text.Numeral

open Token (isDigitOrGap)

variable {base n : Nat} {c : Char} {cs whole fraction exponent : List Char} {p : Char → Bool} {text : String}

/-! ## Digits -/

def IsDigitOf (base : Nat) (c : Char) : Prop :=
  ∃ d < base, Escape.hexValue c = some d

/-- The number that digits stand for. -/
def number (base : Nat) (cs : List Char) : Nat :=
  cs.foldl (fun n c => n * base + (Escape.hexValue c).getD 0) 0

theorem digits?_concat (base : Nat) (cs : List Char) (c : Char) :
    digits? base (cs ++ [c]) =
      (Escape.hexValue c).bind fun d => if d < base then (digits? base cs).map (· * base + d) else none := by
  simp only [digits?, List.foldl_append, List.foldl_cons, List.foldl_nil]
  cases Escape.hexValue c with
  | none => rfl
  | some d =>
      simp only [Option.bind_eq_bind, Option.bind_some]
      split
      · cases List.foldl _ (some 0) cs <;> rfl
      · rfl

theorem number_concat (base : Nat) (cs : List Char) (c : Char) :
    number base (cs ++ [c]) = number base cs * base + (Escape.hexValue c).getD 0 := by
  simp [number, List.foldl_append]

theorem digits?_eq_some (h : ∀ c ∈ cs, IsDigitOf base c) : digits? base cs = some (number base cs) := by
  induction cs using List.reverseRecOn with
  | nil => rfl
  | append_singleton cs c ih =>
      obtain ⟨d, hd, hvalue⟩ := h c (by simp)
      rw [digits?_concat, number_concat, ih fun x hx => h x (by simp [hx]), hvalue]
      simp [hd]

theorem digits?_eq_none (hc : c ∈ cs) (h : ¬ IsDigitOf base c) : digits? base cs = none := by
  induction cs using List.reverseRecOn with
  | nil => exact nomatch hc
  | append_singleton cs last ih =>
      rw [digits?_concat]
      rcases List.mem_append.mp hc with hc | hc
      · rw [ih hc]
        cases Escape.hexValue last <;> simp
      · obtain rfl := List.mem_singleton.mp hc
        cases hvalue : Escape.hexValue c with
        | none => rfl
        | some d => exact if_neg fun hlt => h ⟨d, hlt, hvalue⟩

theorem isDigitOf_ten (h : c.isDigit = true) : IsDigitOf 10 c := by
  refine ⟨c.toNat - 48, ?_, if_pos h⟩
  simp only [Char.isDigit, Bool.and_eq_true, decide_eq_true_eq, UInt32.le_iff_toNat_le] at h
  change 48 ≤ c.toNat ∧ c.toNat ≤ 57 at h
  omega

/-! ## Numerals -/

/-- A fraction whose digits are characters with a property. -/
inductive IsFraction (p : Char → Bool) : List Char → Prop
  | none : IsFraction p []
  | point {ds : List Char} (h : ∀ c ∈ ds, p c = true) : IsFraction p ('.' :: ds)

inductive IsExponent (p : Char → Bool) : List Char → Prop
  | none : IsExponent p []
  | power {letter : Char} {sign ds : List Char} (hletter : letter = 'e' ∨ letter = 'E')
      (hsign : sign ∈ [[], ['+'], ['-']]) (h : ∀ c ∈ ds, p c = true) (hdigit : ∃ c ∈ ds, c.isDigit = true) :
      IsExponent p (letter :: (sign ++ ds))

/-- A decimal number, of which some digit is not in the exponent. -/
structure IsDecimal (p : Char → Bool) (whole fraction exponent : List Char) : Prop where
  digit : ∃ c ∈ whole ++ fraction, c.isDigit = true
  before : ∀ c ∈ whole, p c = true
  behind : IsFraction p fraction
  power : IsExponent p exponent

/-- Whether characters are a number as it is written. -/
inductive IsWritten : List Char → Prop
  | decimal {whole fraction exponent : List Char} (h : IsDecimal isDigitOrGap whole fraction exponent) :
      IsWritten (whole ++ fraction ++ exponent)
  | radix {letter : Char} {ds : List Char} (hletter : letter ∈ ['x', 'X', 'o', 'O', 'b', 'B'])
      (h : ∀ c ∈ ds, (isHexDigit c || c == '_') = true) : IsWritten ('0' :: letter :: ds)

/-! ## Without underscores -/

def clean (cs : List Char) : List Char :=
  cs.filter (· != '_')

theorem isDigit_of_mem_clean (h : ∀ c ∈ cs, isDigitOrGap c = true) : ∀ c ∈ clean cs, c.isDigit = true := by
  intro c hc
  obtain ⟨hmem, hne⟩ := List.mem_filter.mp hc
  have hdigit := h c hmem
  rw [isDigitOrGap, Bool.or_eq_true, beq_iff_eq] at hdigit
  exact hdigit.resolve_right (bne_iff_ne.mp hne)

theorem exists_digit_clean (h : ∃ c ∈ cs, c.isDigit = true) : ∃ c ∈ clean cs, c.isDigit = true := by
  obtain ⟨c, hc, hdigit⟩ := h
  refine ⟨c, List.mem_filter.mpr ⟨hc, bne_iff_ne.mpr ?_⟩, hdigit⟩
  rintro rfl
  exact absurd hdigit (by decide)

theorem clean_append (cs ds : List Char) : clean (cs ++ ds) = clean cs ++ clean ds :=
  List.filter_append ..

theorem IsFraction.clean (h : IsFraction isDigitOrGap cs) : IsFraction Char.isDigit (clean cs) := by
  cases h with
  | none => exact .none
  | point h => exact .point (isDigit_of_mem_clean h)

theorem IsExponent.clean (h : IsExponent isDigitOrGap cs) : IsExponent Char.isDigit (clean cs) := by
  cases h with
  | none => exact .none
  | @power letter sign ds hletter hsign h hdigit =>
      have hsign' : Numeral.clean sign = sign := by
        simp only [List.mem_cons, List.not_mem_nil, or_false] at hsign
        rcases hsign with rfl | rfl | rfl <;> rfl
      have hletter' : Numeral.clean (letter :: (sign ++ ds)) = letter :: (sign ++ Numeral.clean ds) := by
        rw [← hsign', ← clean_append, hsign']
        rcases hletter with rfl | rfl <;> rfl
      rw [hletter']
      exact .power hletter hsign (isDigit_of_mem_clean h) (exists_digit_clean hdigit)

theorem IsDecimal.clean (h : IsDecimal isDigitOrGap whole fraction exponent) :
    IsDecimal Char.isDigit (clean whole) (clean fraction) (clean exponent) where
  digit := by
    rw [← clean_append]
    exact exists_digit_clean h.digit
  before := isDigit_of_mem_clean h.before
  behind := h.behind.clean
  power := h.power.clean

/-! ## Decimal numbers -/

/-- The sign of an exponent, and its digits. -/
def signAndDigits (cs : List Char) : Bool × List Char :=
  match cs with
  | '-' :: rest => (true, rest)
  | '+' :: rest => (false, rest)
  | _ => (false, cs)

/-- The digits of the fraction that may come next, and what follows them. -/
def fractionAndRest (cs : List Char) : List Char × List Char :=
  match cs with
  | '.' :: rest => (rest.takeWhile Char.isDigit, rest.dropWhile Char.isDigit)
  | _ => ([], cs)

/-- The exponent at the end of a number. -/
def power? (cs : List Char) : Option Int :=
  match cs with
  | [] => some 0
  | 'e' :: rest | 'E' :: rest => exponent? rest
  | _ => none

theorem exponent?_eq (cs : List Char) :
    exponent? cs = if (signAndDigits cs).2.isEmpty then none else
      (digits? 10 (signAndDigits cs).2).map fun n => if (signAndDigits cs).1 then -(n : Int) else n := rfl

theorem decimal?_eq (cs : List Char) :
    decimal? cs =
      (power? (fractionAndRest (cs.dropWhile Char.isDigit)).2).bind fun exponent =>
        if (cs.takeWhile Char.isDigit).isEmpty && (fractionAndRest (cs.dropWhile Char.isDigit)).1.isEmpty then none
        else (digits? 10 (cs.takeWhile Char.isDigit ++ (fractionAndRest (cs.dropWhile Char.isDigit)).1)).bind
          fun mantissa => some
            { mantissa, exponent := exponent - (fractionAndRest (cs.dropWhile Char.isDigit)).1.length } := by
  rw [decimal?]
  split
  rename_i fraction rest hsplit
  change fractionAndRest _ = _ at hsplit
  rw [hsplit]
  dsimp only
  split
  · rfl
  · rfl
  · rfl
  · rename_i hnil hlower hupper
    rw [power?.eq_4 rest hnil hlower hupper]
    rfl

theorem digits?_of_isDigit (h : ∀ c ∈ cs, c.isDigit = true) : digits? 10 cs = some (number 10 cs) :=
  digits?_eq_some fun c hc => isDigitOf_ten (h c hc)

theorem signAndDigits_append {sign ds : List Char} (hsign : sign ∈ [[], ['+'], ['-']])
    (h : ∀ c ∈ ds, c.isDigit = true) : (signAndDigits (sign ++ ds)).2 = ds := by
  simp only [List.mem_cons, List.not_mem_nil, or_false] at hsign
  rcases hsign with rfl | rfl | rfl
  · rw [List.nil_append]
    unfold signAndDigits
    split
    · exact absurd (h '-' List.mem_cons_self) (by decide)
    · exact absurd (h '+' List.mem_cons_self) (by decide)
    · rfl
  · rfl
  · rfl

theorem IsExponent.power? (h : IsExponent Char.isDigit exponent) : (power? exponent).isSome = true := by
  cases h with
  | none => rfl
  | @power letter sign ds hletter hsign h hdigit =>
      obtain ⟨c, hc, -⟩ := hdigit
      have hexponent : (exponent? (sign ++ ds)).isSome = true := by
        rw [exponent?_eq, signAndDigits_append hsign h, digits?_of_isDigit h]
        simp [List.ne_nil_of_mem hc]
      rcases hletter with rfl | rfl
      · exact hexponent
      · exact hexponent

/-- Digits end where the fraction or the exponent begins. -/
theorem takeWhile_isDigit {rest : List Char} (h : ∀ c ∈ cs, c.isDigit = true)
    (hrest : ∀ c ∈ rest.head?, c.isDigit = false) :
    (cs ++ rest).takeWhile Char.isDigit = cs ∧ (cs ++ rest).dropWhile Char.isDigit = rest := by
  rw [List.takeWhile_append_of_pos h, List.dropWhile_append_of_pos h]
  cases rest with
  | nil => simp
  | cons c rest => simp [hrest c rfl]

theorem IsExponent.head? (h : IsExponent p exponent) : ∀ c ∈ exponent.head?, c.isDigit = false := by
  cases h with
  | none => simp
  | power hletter =>
      rintro c ⟨⟩
      rcases hletter with rfl | rfl <;> decide

theorem IsFraction.fractionAndRest (h : IsFraction Char.isDigit fraction) (hexponent : IsExponent p exponent) :
    ∃ ds, fractionAndRest (fraction ++ exponent) = (ds, exponent) ∧ (∀ c ∈ ds, c.isDigit = true) ∧
      (fraction = [] ∨ fraction = '.' :: ds) := by
  cases h with
  | none =>
      refine ⟨[], ?_, by simp, .inl rfl⟩
      cases hexponent with
      | none => rfl
      | power hletter => rcases hletter with rfl | rfl <;> rfl
  | @point ds h =>
      obtain ⟨htake, hdrop⟩ := takeWhile_isDigit h hexponent.head?
      exact ⟨ds, congrArg₂ Prod.mk htake hdrop, h, .inr rfl⟩

/-- A decimal number has a value. -/
theorem IsDecimal.decimal? (h : IsDecimal Char.isDigit whole fraction exponent) :
    (decimal? (whole ++ fraction ++ exponent)).isSome = true := by
  obtain ⟨⟨c, hc, hdigit⟩, hwhole, hfraction, hexponent⟩ := h
  obtain ⟨ds, hsplit, hds, hform⟩ := hfraction.fractionAndRest hexponent
  have hhead : ∀ c ∈ (fraction ++ exponent).head?, c.isDigit = false := by
    rcases hform with rfl | rfl
    · exact hexponent.head?
    · rintro c ⟨⟩
      decide
  obtain ⟨htake, hdrop⟩ := takeWhile_isDigit hwhole hhead
  have hsome : ¬ (whole = [] ∧ ds = []) := by
    rintro ⟨rfl, rfl⟩
    rcases hform with rfl | rfl
    · exact nomatch hc
    · obtain rfl := List.mem_singleton.mp hc
      exact absurd hdigit (by decide)
  have hdigits : digits? 10 (whole ++ ds) = some (number 10 (whole ++ ds)) :=
    digits?_of_isDigit fun c hc => (List.mem_append.mp hc).elim (hwhole c) (hds c)
  obtain ⟨k, hk⟩ := Option.isSome_iff_exists.mp hexponent.power?
  rw [List.append_assoc, decimal?_eq, htake, hdrop, hsplit]
  simp [hk, hdigits, hsome]

/-! ## Numerals without a value -/

theorem not_isDigitOf_n (base : Nat) : ¬ IsDigitOf base 'n' := by
  rintro ⟨d, -, hd⟩
  exact nomatch (show Escape.hexValue 'n' = none by decide).symm.trans hd

/-- What is behind the first character. -/
theorem mem_tail_n (h : 'n' ∈ c :: cs) (hc : c ≠ 'n') : 'n' ∈ cs :=
  (List.mem_cons.mp h).resolve_left hc.symm

theorem mem_dropWhile_n (h : 'n' ∈ cs) : 'n' ∈ cs.dropWhile Char.isDigit := by
  rw [← List.takeWhile_append_dropWhile (p := Char.isDigit) (l := cs), List.mem_append] at h
  exact h.resolve_left fun hmem => absurd (List.all_eq_true.mp List.all_takeWhile _ hmem) (by decide)

theorem power?_eq_none (h : 'n' ∈ cs) : power? cs = none := by
  have hexponent {cs : List Char} (h : 'n' ∈ cs) : exponent? cs = none := by
    have hmem : 'n' ∈ (signAndDigits cs).2 := by
      unfold signAndDigits
      split
      · exact mem_tail_n h (by decide)
      · exact mem_tail_n h (by decide)
      · exact h
    rw [exponent?_eq, digits?_eq_none hmem (not_isDigitOf_n 10)]
    simp
  unfold power?
  split
  · exact nomatch h
  · exact hexponent (mem_tail_n h (by decide))
  · exact hexponent (mem_tail_n h (by decide))
  · rfl

/-- A big integer is no decimal number. -/
theorem decimal?_eq_none (h : 'n' ∈ cs) : decimal? cs = none := by
  have hmem : 'n' ∈ (fractionAndRest (cs.dropWhile Char.isDigit)).2 := by
    have hrest := mem_dropWhile_n h
    unfold fractionAndRest
    split
    · rename_i heq
      rw [heq] at hrest
      exact mem_dropWhile_n (mem_tail_n hrest (by decide))
    · exact hrest
  rw [decimal?_eq, power?_eq_none hmem]
  rfl

theorem mem_clean_iff (hne : c ≠ '_') : c ∈ clean cs ↔ c ∈ cs := by
  simp [clean, hne]

/-- Whether a numeral has no value: the digits of another base than ten are none, or not digits of it, or too
many for 64 bits; or it is a big integer. -/
def IsLost (text : String) : Prop :=
  match radix? (clean text.toList) with
  | some (base, ds) => ds = [] ∨ (∃ c ∈ ds, ¬ IsDigitOf base c) ∨ UInt64.size ≤ number base ds
  | none => 'n' ∈ text.toList

/-- Whether a text is a numeral, or a big integer. -/
def IsNumeral (text : String) : Prop :=
  ∃ cs, IsWritten cs ∧ (text.toList = cs ∨ text.toList = cs ++ ['n'])

theorem radix?_clean {letter : Char} (hletter : letter ∈ ['x', 'X', 'o', 'O', 'b', 'B']) (ds : List Char) :
    (radix? (clean ('0' :: letter :: ds))).isSome = true := by
  simp only [List.mem_cons, List.not_mem_nil, or_false] at hletter
  rcases hletter with rfl | rfl | rfl | rfl | rfl | rfl <;> rfl

/-- Of the numerals, those without a value are the ones that are lost. -/
theorem value?_eq_none_iff (h : IsNumeral text) : value? text = none ↔ IsLost text := by
  obtain ⟨cs, hcs, htext⟩ := h
  rw [value?, IsLost, ← clean]
  rcases hradix : radix? (clean text.toList) with - | ⟨base, ds⟩
  · dsimp only
    rw [Option.map_eq_none_iff]
    rcases htext with htext | htext
    · cases hcs with
      | @decimal whole fraction exponent h =>
          have hsome := h.clean.decimal?
          rw [← clean_append, ← clean_append, ← htext] at hsome
          refine iff_of_false (Option.isSome_iff_ne_none.mp hsome) fun hn => ?_
          rw [decimal?_eq_none ((mem_clean_iff (by decide)).mpr hn)] at hsome
          exact nomatch hsome
      | @radix letter ds hletter _ =>
          have hsome := radix?_clean hletter ds
          rw [← htext, hradix] at hsome
          exact nomatch hsome
    · have hn : 'n' ∈ text.toList := by simp [htext]
      exact iff_of_true (decimal?_eq_none ((mem_clean_iff (by decide)).mpr hn)) hn
  · dsimp only
    by_cases hall : ∀ c ∈ ds, IsDigitOf base c
    · have hnone : ¬ ∃ c ∈ ds, ¬ IsDigitOf base c := by simpa using hall
      simpa [digits?_eq_some hall, hnone] using or_iff_not_imp_left.symm
    · obtain ⟨c, hc, hnot⟩ : ∃ c ∈ ds, ¬ IsDigitOf base c := by simpa using hall
      exact iff_of_true (by rw [digits?_eq_none hc hnot]; rfl) (.inr (.inl ⟨c, hc, hnot⟩))

end PropContract.Text.Numeral
