import PropContract.Proofs.Text.Escape
import PropContract.Proofs.Token.Search
import PropContract.Token.Scan

/-!
# Contents of strings

What stands between the quotes of a string is read byte by byte, with a jump over every escape. On whole
characters it ends at the first quote that is not escaped, and stands for the string that is written there.
-/

namespace PropContract.Token

open Text

/-- What stands between the quotes of a string as the lexer reads it: escapes are whole, a carriage return
and its line feed are escaped together, and no quote, backslash or line feed stands for itself. -/
inductive Contents (quote : Char) : List Char → Prop
  | nil : Contents quote []
  | char {c : Char} {cs : List Char} (hc : c ∉ [quote, '\\', '\n']) (rest : Contents quote cs) : Contents quote (c :: cs)
  | escape {c : Char} {cs : List Char} (rest : Contents quote cs) : Contents quote ('\\' :: c :: cs)
  | lineBreak {cs : List Char} (rest : Contents quote cs) : Contents quote ('\\' :: '\r' :: '\n' :: cs)

variable {s : Source} {pos n : Nat} {c quote : Char} {q : Quote} {cs raw after value : List Char}

theorem Contents.head_ne (h : Contents quote raw) : raw.head? ≠ some '\n' := by
  cases h with
  | nil => simp
  | char hc =>
      intro hhead
      rw [List.head?_cons, Option.some.injEq] at hhead
      simp [hhead] at hc
  | _ => simp

theorem Contents.append (hcs : ∀ c ∈ cs, c ∉ [quote, '\\', '\n']) (h : Contents quote raw) :
    Contents quote (cs ++ raw) := by
  induction cs with
  | nil => exact h
  | cons c cs ih =>
      exact .char (hcs c List.mem_cons_self) (ih fun d hd => hcs d (List.mem_cons_of_mem c hd))

/-- Whichever way a string is written, the quotes around it are found again. -/
theorem Contents.of_writes (h : Escape.Writes q.char raw value) : Contents q.char raw := by
  have digits {ds : List Char} {k : Nat} (hds : Escape.HexNumeral ds k) :
      ∀ d ∈ ds, d ∉ [q.char, '\\', '\n'] ∧ d ≠ '}' := by
    intro d hd
    have hplain := hds.plain d hd
    cases q <;> simp_all [Quote.char]
  induction h with
  | nil => exact .nil
  | char first _ ih =>
      cases first with
      | itself hc => exact .char hc ih
      | escaped | letter | zero => exact .escape ih
      | twoDigits _ hds | fourDigits _ hds => exact .escape (ih.append fun d hd => (digits hds d hd).1)
      | braced _ hds =>
          have hbraces : '{' ∉ [q.char, '\\', '\n'] ∧ '}' ∉ [q.char, '\\', '\n'] := by cases q <;> decide
          have hclose : Contents q.char (['}'] ++ _) := ih.append fun d hd => List.mem_singleton.mp hd ▸ hbraces.2
          have hnumber := hclose.append fun d hd => (digits hds d hd).1
          have hall := Contents.escape (c := 'u') (.char hbraces.1 hnumber)
          simpa using hall
  | joined hbreak _ ih =>
      simp only [Escape.lineBreaks, List.mem_cons, List.not_mem_nil, or_false] at hbreak
      rcases hbreak with rfl | rfl | rfl | rfl | rfl
      · exact .escape ih
      · exact .escape ih
      · exact .lineBreak ih
      · exact .escape ih
      · exact .escape ih

/-! ## Reading -/

/-- Reading the contents of a string, as a search that always finds something. -/
def contentsSearch (s : Source) (quote : Char) (n pos : Nat) : Option (Nat × Bool) :=
  some (stringContentsIn s quote n pos)

theorem stringContentsIn_succ (s : Source) (quote : Char) (n pos : Nat) :
    stringContentsIn s quote (n + 1) pos =
      match s.find? [quote, '\\', '\n'].contains pos with
      | none => (s.size, false)
      | some p =>
        if s.charAt p == '\\' then
          stringContentsIn s quote n
            (min (p + if s.charAt (p + 1) == '\r' && s.charAt (p + 2) == '\n' then 3 else 2) s.size)
        else (p, s.charAt p != '\n') := by
  have hmarks : (fun c => c == quote || c == '\\' || c == '\n') = [quote, '\\', '\n'].contains := by
    funext c
    simp only [List.contains_cons, List.contains_nil, Bool.or_false, Bool.or_assoc]
  rewrite [stringContentsIn, hmarks]
  rfl

theorem contentsSearch_same (q q' : Nat)
    (h : s.find? [quote, '\\', '\n'].contains q = s.find? [quote, '\\', '\n'].contains q') (n : Nat) :
    contentsSearch s quote (n + 1) q = contentsSearch s quote (n + 1) q' := by
  rw [contentsSearch, contentsSearch, stringContentsIn_succ, stringContentsIn_succ, h]

theorem finds_contents (h : Contents q.char raw) (hrest : s.Rest pos (raw ++ q.char :: after)) :
    Finds s (contentsSearch s q.char) pos (pos + width raw, true) := by
  have hmarks : [q.char, '\\', '\n'].all (·.toNat < 0x80) := by cases q <;> decide
  induction h generalizing pos with
  | nil =>
      have hhere : s.Rest pos (q.char :: after) := hrest
      refine Finds.of_step hhere.lt_size fun n => ?_
      rw [contentsSearch, stringContentsIn_succ, hhere.find?_here (by simp) q.char_ascii]
      simp only [hhere.charAt q.char_ascii]
      cases q <;> rfl
  | char hc _ ih =>
      have hlater := (Leads.unmarked hmarks contentsSearch_same hc hrest) _ (ih hrest.next)
      rwa [Nat.add_assoc, ← width_append, List.singleton_append] at hlater
  | @escape c cs rest ih =>
      have hnext : s.Rest (pos + 1) (c :: (cs ++ q.char :: after)) := hrest.tail (by decide)
      have hlt := hnext.lt_size
      -- No line feed follows: it would stand for itself.
      have hwidth : (s.charAt (pos + 1) == '\r' && s.charAt (pos + 2) == '\n') = false := by
        by_cases hc : c = '\r'
        · subst hc
          have hbehind : s.Rest (pos + 2) (cs ++ q.char :: after) := hnext.tail (by decide)
          obtain ⟨d, ds, hds, hd⟩ : ∃ d ds, cs ++ q.char :: after = d :: ds ∧ d ≠ '\n' := by
            cases cs with
            | nil => exact ⟨q.char, after, rfl, by cases q <;> decide⟩
            | cons d ds => exact ⟨d, _, rfl, fun heq => rest.head_ne (by rw [heq]; rfl)⟩
          rw [hds] at hbehind
          simp [hbehind.charAt_ne (by decide) hd]
        · simp [hnext.charAt_ne (by decide) hc]
      have hstep (n : Nat) : contentsSearch s q.char (n + 1) pos = contentsSearch s q.char n (pos + 2) := by
        have hmin : min (pos + 2) s.size = pos + 2 := Nat.min_eq_left hlt
        rw [contentsSearch, stringContentsIn_succ, hrest.find?_here (by simp) (by decide)]
        simp only [hrest.charAt (show '\\'.toNat < 0x80 by decide), hwidth, beq_self_eq_true, if_true,
          Bool.false_eq_true, if_false, hmin]
        rfl
      have hlater := (Leads.escaped hmarks contentsSearch_same hrest hstep) _ (ih hrest.next_next)
      rwa [Nat.add_assoc, ← width_append] at hlater
  | @lineBreak cs _ ih =>
      have hreturn := hrest.tail (by decide)
      have hfeed := hreturn.tail (by decide)
      have hbehind := hfeed.tail (by decide)
      have hmin : min (pos + 3) s.size = pos + 3 := Nat.min_eq_left hfeed.lt_size
      have hstep (n : Nat) : contentsSearch s q.char (n + 1) pos = contentsSearch s q.char n (pos + 3) := by
        rw [contentsSearch, stringContentsIn_succ, hrest.find?_here (by simp) (by decide)]
        simp only [hrest.charAt (show '\\'.toNat < 0x80 by decide), hreturn.charAt (show '\r'.toNat < 0x80 by decide),
          hfeed.charAt (show '\n'.toNat < 0x80 by decide), beq_self_eq_true, if_true, Bool.and_self, hmin]
        rfl
      have hlater := Leads.of_step hrest.lt_size (by omega) hstep _ (ih hbehind)
      have hwidth : width ('\\' :: '\r' :: '\n' :: cs) = 3 + width cs := by
        simp only [width_ascii (show '\\'.toNat < 0x80 by decide), width_ascii (show '\r'.toNat < 0x80 by decide),
          width_ascii (show '\n'.toNat < 0x80 by decide)]
        omega
      rwa [hwidth, ← Nat.add_assoc]

theorem stringContentsIn_contents (h : Contents q.char raw) (hrest : s.Rest pos (q.char :: (raw ++ q.char :: after))) :
    stringContentsIn s q.char (s.size - pos) (pos + 1) = (pos + 1 + width raw, true) :=
  Option.some.inj (finds_contents h (hrest.tail q.char_ascii) _ (by omega))

/-- A string is read back, in whichever way it is written. -/
theorem scanString_writes (h : Escape.Writes q.char raw value)
    (hrest : s.Rest pos (q.char :: (raw ++ q.char :: after))) :
    scanString s pos q.char =
      { stop := pos + width (q.char :: (raw ++ [q.char])), kind := .string, value := String.ofList value } := by
  have hwidth : width (q.char :: (raw ++ [q.char])) = width raw + 2 := by
    rw [width_ascii q.char_ascii, width_append, width_ascii q.char_ascii, width_nil]
  rw [scanString, stringContentsIn_contents (.of_writes h) hrest]
  simp only [if_true]
  rw [(hrest.tail q.char_ascii).slice, Escape.decodeString_writes h, hwidth]
  congr 1
  omega

end PropContract.Token
