import PropContract.Proofs.Text.Source
import PropContract.Proofs.Text.Spelling

/-!
# Writing strings

A string between quotes, with the quote, the backslash and the line breaks escaped, is written in one of the
ways that are read as the string again.
-/

namespace PropContract.Text

inductive Quote where
  | double | single
deriving DecidableEq, Repr

def Quote.char : Quote → Char
  | double => '"'
  | single => '\''

theorem Quote.char_ascii (q : Quote) : q.char.toNat < 0x80 := by
  cases q <;> decide

namespace Escape

variable (q : Quote)

def escapeChar (c : Char) : List Char :=
  if c = q.char ∨ c = '\\' then ['\\', c]
  else if c = '\n' then ['\\', 'n']
  else if c = '\r' then ['\\', 'r']
  else [c]

def escape (cs : List Char) : List Char :=
  cs.flatMap (escapeChar q)

theorem writesChar_escapeChar (c : Char) (after : List Char) : WritesChar q.char c (escapeChar q c) after := by
  unfold escapeChar
  by_cases hspecial : c = q.char ∨ c = '\\'
  · rw [if_pos hspecial]
    rcases hspecial with rfl | rfl
    · cases q <;> exact .escaped (by decide) (by decide) (by decide)
    · exact .escaped (by decide) (by decide) (by decide)
  rw [if_neg hspecial]
  rw [not_or] at hspecial
  by_cases hfeed : c = '\n'
  · subst hfeed
    exact .letter (by decide)
  rw [if_neg hfeed]
  by_cases hreturn : c = '\r'
  · subst hreturn
    exact .letter (by decide)
  rw [if_neg hreturn]
  exact .itself (by simp [hspecial, hfeed])

/-- Escaping is one of the ways to write a string. -/
theorem writes_escape (cs : List Char) : Writes q.char (escape q cs) cs := by
  induction cs with
  | nil => exact .nil
  | cons c cs ih => exact .char (writesChar_escapeChar q c (escape q cs)) ih

end Escape

end PropContract.Text
