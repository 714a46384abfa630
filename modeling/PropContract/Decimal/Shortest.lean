/-!
# Shortest decimals

The decimal with the fewest digits that is nearer to a given double than to any other one.
-/

namespace PropContract.Decimal

/-- How many decimal digits a number has; zero has none. -/
def digitCount (n : Nat) : Nat :=
  if n = 0 then 0 else (Nat.toDigits 10 n).length

/-- A double above zero: `significand * 2 ^ exponent`. The double below it is half as far as the one
above if `isEdge` holds. -/
structure Binary where
  significand : Nat
  exponent : Int
  isEdge : Bool
deriving DecidableEq, Repr

/-- The bit above the 52 bits of a double's fraction. -/
def hiddenBit : Nat := 0x10000000000000

def isNegative (x : Float) : Bool :=
  x.toBits.toNat / (2048 * hiddenBit) == 1

/-- The eleven bits that scale a double. -/
def scaleBits (x : Float) : Nat :=
  x.toBits.toNat / hiddenBit % 2048

def isFinite (x : Float) : Bool := scaleBits x != 2047

/-- A finite double without its sign. -/
def Binary.ofFloat (x : Float) : Binary :=
  let fraction := x.toBits.toNat % hiddenBit
  let scale := scaleBits x
  if scale = 0 then { significand := fraction, exponent := -1074, isEdge := false }
  else
    { significand := hiddenBit + fraction, exponent := (scale : Int) - 1075
      isEdge := fraction == 0 && scale != 1 }

/-- A decimal: `digits * 10 ^ exponent`. -/
structure Short where
  digits : Nat
  exponent : Int
deriving DecidableEq, Repr

/-- The nearer one of the two neighbours of a double among the multiples of `10 ^ k` that read back
as the double. The interval that reads back includes its ends if the significand is even. -/
def neighbour? (b : Binary) (k : Int) : Option Nat :=
  -- Everything is multiplied by four, and by what makes it whole.
  let whole := Nat.pow 2 b.exponent.toNat * Nat.pow 10 (-k).toNat
  let grid := 4 * (Nat.pow 2 (-b.exponent).toNat * Nat.pow 10 k.toNat)
  let value := 4 * b.significand * whole
  let low := value - (if b.isEdge then 1 else 2) * whole
  let high := value + 2 * whole
  let readsBack (d : Nat) : Bool :=
    if b.significand % 2 = 0 then low ≤ d * grid && d * grid ≤ high
    else low < d * grid && d * grid < high
  let below := value / grid
  let above := below + 1
  match readsBack below, readsBack above with
  | true, false => some below
  | false, true => some above
  | true, true =>
    let down := value - below * grid
    let up := above * grid - value
    if down < up ∨ (down = up ∧ below % 2 = 0) then some below else some above
  | false, false => none

/-- The position of the first digit: `10 ^ (magnitude b - 1)` is the greatest power of ten that is
not greater. -/
def magnitude (b : Binary) : Int :=
  let num := b.significand * Nat.pow 2 b.exponent.toNat
  let den := Nat.pow 2 (-b.exponent).toNat
  if den ≤ num then digitCount (num / den)
  else 1 - (digitCount ((den - 1) / num) : Int)

def stripZeros : (n : Nat) → Short → Short
  | 0, d => d
  | n + 1, d =>
    if d.digits % 10 = 0 then stripZeros n { digits := d.digits / 10, exponent := d.exponent + 1 }
    else d

/-- The shortest decimal that reads back as a double above zero; of those, the nearest one. -/
def shortest (b : Binary) : Short :=
  let found := (List.range 17).findSome? fun (n : Nat) =>
    let k := magnitude b - (n + 1 : Nat)
    (neighbour? b k).map fun digits => { digits, exponent := k : Short }
  match found with
  | some d => stripZeros 17 d
  | none => { digits := b.significand, exponent := 0 }

end PropContract.Decimal
