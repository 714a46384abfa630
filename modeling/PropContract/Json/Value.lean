import PropContract.Decimal.Shortest

/-!
# JSON values and their text

Values with ordered members, and how they are written: two spaces for every level, one item a line.
-/

namespace PropContract

inductive Json where
  | null
  | bool (value : Bool)
  | natural (value : Nat)
  | double (value : Float)
  | string (value : String)
  | array (items : List Json)
  | object (members : List (String × Json))
deriving Repr

namespace Json

/-! ## Strings -/

def escapeChar (c : Char) : List Char :=
  match c with
  | '"' => ['\\', '"']
  | '\\' => ['\\', '\\']
  | '\x08' => ['\\', 'b']
  | '\x0c' => ['\\', 'f']
  | '\n' => ['\\', 'n']
  | '\r' => ['\\', 'r']
  | '\t' => ['\\', 't']
  | _ =>
    if c.toNat < 0x20 then
      ['\\', 'u', '0', '0', Nat.digitChar (c.toNat / 16), Nat.digitChar (c.toNat % 16)]
    else [c]

def quote (text : String) : String :=
  String.ofList ('"' :: text.toList.flatMap escapeChar ++ ['"'])

/-! ## Numbers -/

/-- The digits of a decimal with a point after the first `point` of them. Zeros fill the gaps, and a
digit stands on each side. -/
def positional (digits : List Char) (point : Int) : List Char :=
  let whole := digits.take point.toNat ++ List.replicate (point.toNat - digits.length) '0'
  let fraction := List.replicate (-point).toNat '0' ++ digits.drop point.toNat
  (if whole.isEmpty then ['0'] else whole) ++ '.' :: (if fraction.isEmpty then ['0'] else fraction)

/-- The digits with a point after the first one, and the power of ten to multiply with. -/
def scientific (digits : List Char) (exponent : Int) : List Char :=
  let fraction := digits.drop 1
  digits.take 1 ++ (if fraction.isEmpty then [] else '.' :: fraction) ++
    'e' :: (if exponent < 0 then '-' else '+') :: Nat.toDigits 10 exponent.natAbs

/-- A finite double in its fewest digits: positional from 0.00001 on and below 10 ^ 16. -/
def finiteText (x : Float) : List Char :=
  let sign := if Decimal.isNegative x then ['-'] else []
  let b := Decimal.Binary.ofFloat x
  if b.significand = 0 then sign ++ ['0', '.', '0']
  else
    let d := Decimal.shortest b
    let digits := Nat.toDigits 10 d.digits
    let point := d.exponent + digits.length
    if -5 < point ∧ point ≤ 16 then sign ++ positional digits point
    else sign ++ scientific digits (point - 1)

/-- A double; what is not finite has no number in JSON. -/
def doubleText (x : Float) : String :=
  if Decimal.isFinite x then String.ofList (finiteText x) else "null"

/-! ## Layout -/

/-- The line break before an item of level `level`. -/
def newline (level : Nat) : String :=
  String.ofList ('\n' :: List.replicate (2 * level) ' ')

/-- Items between brackets, each on a line of its own. -/
def layout (opening closing : String) (level : Nat) (items : List String) : String :=
  if items.isEmpty then opening ++ closing
  else
    opening ++ newline (level + 1) ++ ("," ++ newline (level + 1)).intercalate items ++
      newline level ++ closing

def textAt (level : Nat) : Json → String
  | null => "null"
  | bool true => "true"
  | bool false => "false"
  | natural n => toString n
  | double x => doubleText x
  | string s => quote s
  | array items => layout "[" "]" level (itemTexts (level + 1) items)
  | object members => layout "\x7b" "\x7d" level (memberTexts (level + 1) members)
where
  itemTexts (level : Nat) : List Json → List String
    | [] => []
    | item :: rest => textAt level item :: itemTexts level rest
  memberTexts (level : Nat) : List (String × Json) → List String
    | [] => []
    | (key, value) :: rest => (quote key ++ ": " ++ textAt level value) :: memberTexts level rest

def text (j : Json) : String := textAt 0 j

end Json

end PropContract
