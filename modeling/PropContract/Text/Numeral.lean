import PropContract.Text.Escape

/-!
# Numerals

The number that a numeric literal stands for.
-/

namespace PropContract.Text.Numeral

/-- A decimal fraction: `mantissa * 10 ^ exponent`. -/
structure Decimal where
  mantissa : Nat
  exponent : Int
deriving DecidableEq, Repr

/-- The double nearest to a decimal fraction, ties to even. Fractions past the range of doubles on
either side are not expanded first. -/
def Decimal.toFloat (d : Decimal) : Float :=
  let digits : Int := (Nat.toDigits 10 d.mantissa).length
  if d.mantissa = 0 ∨ d.exponent + digits < -400 then 0.0
  else if 400 < d.exponent + digits then Float.ofScientific 1 false 400
  else if d.exponent < 0 then Float.ofScientific d.mantissa true d.exponent.natAbs
  else Float.ofScientific d.mantissa false d.exponent.natAbs

/-- The number that digits in a base stand for, if all of them are digits of it. -/
def digits? (base : Nat) (cs : List Char) : Option Nat :=
  cs.foldl (fun n? c => do
    let d ← Escape.hexValue c
    if d < base then return (← n?) * base + d else none) (some 0)

/-- The exponent after its `e`: an optional sign and at least one digit. -/
def exponent? (cs : List Char) : Option Int :=
  let (negative, digits) := match cs with
    | '-' :: rest => (true, rest)
    | '+' :: rest => (false, rest)
    | _ => (false, cs)
  if digits.isEmpty then none
  else (digits? 10 digits).map fun n => if negative then -n else n

/-- Digits with an optional fraction and an optional exponent; at least one digit stands before the
exponent. -/
def decimal? (cs : List Char) : Option Decimal := do
  let whole := cs.takeWhile Char.isDigit
  let rest := cs.dropWhile Char.isDigit
  let (fraction, rest) := match rest with
    | '.' :: rest => (rest.takeWhile Char.isDigit, rest.dropWhile Char.isDigit)
    | _ => ([], rest)
  let exponent ← match rest with
    | [] => some 0
    | 'e' :: rest | 'E' :: rest => exponent? rest
    | _ => none
  if whole.isEmpty && fraction.isEmpty then none
  else return { mantissa := ← digits? 10 (whole ++ fraction), exponent := exponent - fraction.length }

/-- The base that a numeral's first two characters announce, and its digits. -/
def radix? : List Char → Option (Nat × List Char)
  | '0' :: 'x' :: cs | '0' :: 'X' :: cs => some (16, cs)
  | '0' :: 'o' :: cs | '0' :: 'O' :: cs => some (8, cs)
  | '0' :: 'b' :: cs | '0' :: 'B' :: cs => some (2, cs)
  | _ => none

/-- The value of a numeric literal: decimal, or a whole number below 2 ^ 64 in base 16, 8 or 2.
Underscores between digits mean nothing. -/
def value? (text : String) : Option Float :=
  let cs := text.toList.filter (· != '_')
  match radix? cs with
  | some (base, digits) => do
    let n ← digits? base digits
    if digits.isEmpty || 0x10000000000000000 ≤ n then none else return Float.ofNat n
  | none => (decimal? cs).map Decimal.toFloat

end PropContract.Text.Numeral
