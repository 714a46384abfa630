import PropContract.Text.ByteClass

/-!
# Source text

A source is a text with its UTF-8 bytes. Offsets are byte offsets; reading past the end gives NUL.
-/

namespace PropContract.Text

structure Source where
  text : String
  bytes : ByteArray := text.toUTF8
  bytes_eq : bytes = text.toUTF8 := by rfl

namespace Source

def ofString (text : String) : Source := { text }

def size (s : Source) : Nat := s.bytes.size

def byte? (s : Source) (i : Nat) : Option UInt8 := s.bytes[i]?

/-- The byte at `i` as a character below U+0100, and NUL past the end. -/
def charAt (s : Source) (i : Nat) : Char := Char.ofUInt8 ((s.byte? i).getD 0)

/-- The text between two offsets; empty when they do not cut out whole characters. -/
def slice (s : Source) (start stop : Nat) : String :=
  if start ≤ stop ∧ stop ≤ s.size then
    (String.fromUTF8? (s.bytes.extract start stop)).getD ""
  else ""

def holdsAt (s : Source) (pos : Nat) : List UInt8 → Bool
  | [] => pos ≤ s.size
  | b :: w => s.byte? pos == some b && s.holdsAt (pos + 1) w

def startsWithAt (s : Source) (pos : Nat) (w : String) : Bool :=
  s.holdsAt pos w.toUTF8.data.toList

/-- The first of the `n` offsets from `pos` on whose byte satisfies `p`. -/
def findIn (s : Source) (p : Char → Bool) : (n pos : Nat) → Option Nat
  | 0, _ => none
  | n + 1, pos => if p (s.charAt pos) then some pos else s.findIn p n (pos + 1)

/-- The first offset at or after `pos` whose byte satisfies `p`. -/
def find? (s : Source) (p : Char → Bool) (pos : Nat) : Option Nat :=
  s.findIn p (s.size - pos) pos

/-- The first offset at or after `pos` whose byte does not satisfy `p`, or the end of the text. -/
def skipWhile (s : Source) (p : Char → Bool) (pos : Nat) : Nat :=
  (s.find? (fun c => !p c) pos).getD (max pos s.size)

/-- The least offset from which the bytes up to `pos` all satisfy `p`. -/
def skipBack (s : Source) (p : Char → Bool) : (pos : Nat) → Nat
  | 0 => 0
  | n + 1 => if p (s.charAt n) then s.skipBack p n else n + 1

end Source

end PropContract.Text
