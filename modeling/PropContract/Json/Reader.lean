import PropContract.Json.Value
import PropContract.Text.Numeral

/-!
# Reading JSON

The value that a text stands for. Nothing but blanks may stand around it, strings contain no control
characters, and numbers have no leading zeros.
-/

namespace PropContract.Json

def isBlank (c : Char) : Bool :=
  c == ' ' || c == '\t' || c == '\n' || c == '\r'

/-! ## Strings -/

def ofSurrogates? (high low : Nat) : Option Char :=
  if 0xd800 ≤ high ∧ high < 0xdc00 ∧ 0xdc00 ≤ low ∧ low < 0xe000 then
    some (Char.ofNat (0x10000 + (high - 0xd800) * 0x400 + (low - 0xdc00)))
  else none

/-- The characters with some numbers, where two surrogates make one character. A surrogate without its
partner makes none; `high` is one that waits for it. -/
def ofNumbers? : (high : Option Nat) → List Nat → Option (List Char)
  | none, [] => some []
  | some _, [] => none
  | none, n :: rest =>
    if n.isValidChar then (ofNumbers? none rest).map (Char.ofNat n :: ·)
    else ofNumbers? (some n) rest
  | some high, n :: rest => do return (← ofSurrogates? high n) :: (← ofNumbers? none rest)

def ofEscape? : Char → Option Char
  | '"' => some '"'
  | '\\' => some '\\'
  | '/' => some '/'
  | 'b' => some '\x08'
  | 'f' => some '\x0c'
  | 'n' => some '\n'
  | 'r' => some '\r'
  | 't' => some '\t'
  | _ => none

/-- The numbers of the characters in a string up to its closing quote, and the text after it. -/
def numbers? : List Char → Option (List Nat × List Char)
  | '"' :: rest => some ([], rest)
  | '\\' :: 'u' :: a :: b :: c :: d :: rest => do
    let n ← Text.Escape.hexNumber [a, b, c, d]
    let (numbers, rest) ← numbers? rest
    return (n :: numbers, rest)
  | '\\' :: c :: rest => do
    let char ← ofEscape? c
    let (numbers, rest) ← numbers? rest
    return (char.toNat :: numbers, rest)
  | c :: rest => do
    let (numbers, rest) ← numbers? rest
    if c.toNat < 0x20 then none else return (c.toNat :: numbers, rest)
  | [] => none

/-- The string that goes on up to its closing quote, and the text after it. -/
def stringRest? (text : List Char) : Option (String × List Char) := do
  let (numbers, rest) ← numbers? text
  return (String.ofList (← ofNumbers? none numbers), rest)

/-! ## Numbers -/

def isNumberChar (c : Char) : Bool :=
  c.isDigit || c == '-' || c == '+' || c == '.' || c == 'e' || c == 'E'

/-- The value of a number. A whole number without a sign is a natural number. -/
def number? (text : List Char) : Option Json := do
  let body := if text.head? = some '-' then text.drop 1 else text
  let whole := body.takeWhile Char.isDigit
  let rest := body.dropWhile Char.isDigit
  if whole.isEmpty || (whole.head? == some '0' && whole.length != 1) then none
  else if rest.head? == some '.' && !((rest.drop 1).head?.any Char.isDigit) then none
  else if rest.isEmpty && body == text then natural <$> Text.Numeral.digits? 10 whole
  else
    let x := (← Text.Numeral.decimal? body).toFloat
    return double (if body == text then x else -x)

/-! ## Values -/

def afterWord? : (word text : List Char) → Option (List Char)
  | [], text => some text
  | w :: word, c :: text => if w = c then afterWord? word text else none
  | _, [] => none

def skipBlanks (text : List Char) : List Char :=
  text.dropWhile isBlank

mutual

/-- The value that a text begins with, and the text after it. Values are at most `n` steps deep. -/
def valueIn? : (n : Nat) → List Char → Option (Json × List Char)
  | 0, _ => none
  | n + 1, text =>
    match skipBlanks text with
    | '"' :: rest => (stringRest? rest).map fun (s, rest) => (string s, rest)
    | '[' :: rest =>
      match skipBlanks rest with
      | ']' :: rest => some (array [], rest)
      | rest => (itemsIn? n rest).map fun (items, rest) => (array items, rest)
    | '\x7b' :: rest =>
      match skipBlanks rest with
      | '\x7d' :: rest => some (object [], rest)
      | rest => (membersIn? n rest).map fun (members, rest) => (object members, rest)
    | 'n' :: rest => (afterWord? ['u', 'l', 'l'] rest).map (null, ·)
    | 't' :: rest => (afterWord? ['r', 'u', 'e'] rest).map (bool true, ·)
    | 'f' :: rest => (afterWord? ['a', 'l', 's', 'e'] rest).map (bool false, ·)
    | rest => (number? (rest.takeWhile isNumberChar)).map (·, rest.dropWhile isNumberChar)

/-- The items of an array up to its end, and the text after it. -/
def itemsIn? : (n : Nat) → List Char → Option (List Json × List Char)
  | 0, _ => none
  | n + 1, text => do
    let (item, rest) ← valueIn? n text
    match skipBlanks rest with
    | ']' :: rest => return ([item], rest)
    | ',' :: rest =>
      let (items, rest) ← itemsIn? n rest
      return (item :: items, rest)
    | _ => none

/-- The members of an object up to its end, and the text after it. -/
def membersIn? : (n : Nat) → List Char → Option (List (String × Json) × List Char)
  | 0, _ => none
  | n + 1, text => do
    let '"' :: rest := skipBlanks text | none
    let (key, rest) ← stringRest? rest
    let ':' :: rest := skipBlanks rest | none
    let (value, rest) ← valueIn? n rest
    let member := (key, value)
    match skipBlanks rest with
    | '\x7d' :: rest => return ([member], rest)
    | ',' :: rest =>
      let (members, rest) ← membersIn? n rest
      return (member :: members, rest)
    | _ => none

end

/-- The value of a text. Each level and each item takes at least one character. -/
def ofText? (text : String) : Option Json := do
  let (value, rest) ← valueIn? (2 * text.length + 1) text.toList
  if (skipBlanks rest).isEmpty then some value else none

/-! ## Parts of values -/

def string? : Json → Option String
  | string s => some s
  | _ => none

def strings? : Json → Option (List String)
  | array items => items.mapM string?
  | _ => none

end PropContract.Json
