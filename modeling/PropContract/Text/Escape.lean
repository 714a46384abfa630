import PropContract.Text.ByteClass

/-!
# Escape sequences

What the characters between the quotes of a string or template literal stand for.
-/

namespace PropContract.Text.Escape

def hexValue (c : Char) : Option Nat :=
  if c.isDigit then some (c.toNat - '0'.toNat)
  else if 'a' ≤ c ∧ c ≤ 'f' then some (c.toNat - 'a'.toNat + 10)
  else if 'A' ≤ c ∧ c ≤ 'F' then some (c.toNat - 'A'.toNat + 10)
  else none

/-- The number written by hexadecimal digits, most significant first. -/
def hexNumber (digits : List Char) : Option Nat :=
  digits.foldl (fun n? c => do return (← n?) * 16 + (← hexValue c)) (some 0)

/-- The character whose number is written in hexadecimal, one leading plus sign allowed. Anything that
is no number of a character gives the replacement character. -/
def codePoint (digits : List Char) : Char :=
  let digits := match digits with
    | '+' :: rest => rest
    | _ => digits
  match if digits.isEmpty then none else hexNumber digits with
  | some n => if n.isValidChar then Char.ofNat n else '\uFFFD'
  | none => '\uFFFD'

def letter? : Char → Option Char
  | 'n' => some '\n'
  | 't' => some '\t'
  | 'r' => some '\r'
  | 'b' => some '\x08'
  | 'f' => some '\x0c'
  | 'v' => some '\x0b'
  | _ => none

/-- Line breaks that a backslash joins to the next line. -/
def isLineTerminator (c : Char) : Bool :=
  c == '\n' || c == '\u2028' || c == '\u2029'

/-- What stands after a backslash: the characters it means, and the input that is left. -/
def afterBackslash : List Char → List Char × List Char
  | [] => ([], [])
  | 'x' :: cs => ([codePoint (cs.take 2)], cs.drop 2)
  | 'u' :: '{' :: cs => ([codePoint (cs.takeWhile (· != '}'))], (cs.dropWhile (· != '}')).drop 1)
  | 'u' :: cs => ([codePoint (cs.take 4)], cs.drop 4)
  | '\r' :: '\n' :: cs => ([], cs)
  | '\r' :: cs => ([], cs)
  | c :: cs =>
    match letter? c with
    | some l => ([l], cs)
    | none =>
      if c == '0' && !(cs.head?.any Char.isDigit) then (['\x00'], cs)
      else if isLineTerminator c then ([], cs)
      else ([c], cs)

/-- Reads at most `n` characters or escape sequences. -/
def decodeUpTo : Nat → List Char → List Char
  | 0, _ => []
  | _, [] => []
  | n + 1, '\\' :: cs =>
    let (out, rest) := afterBackslash cs
    out ++ decodeUpTo n rest
  | n + 1, c :: cs => c :: decodeUpTo n cs

/-- The characters that the raw contents of a literal stand for. -/
def decode (raw : List Char) : List Char :=
  decodeUpTo raw.length raw

def decodeString (raw : String) : String :=
  String.ofList (decode raw.toList)

end PropContract.Text.Escape
