import PropContract.Diagnostic.Message
import PropContract.Text.Escape
import PropContract.Token.Kind
import PropContract.Token.Opaque

/-!
# The token at an offset

`scanAt s pos` is the first token at or after `pos`, with the lexical errors met on the way. It
depends on nothing but the text and the offset.
-/

namespace PropContract

/-- A token: its span without the blanks before it, its kind, what it stands for (the name, the
contents of a string, the text of a number), and whether a line break stands before it. -/
structure Token where
  start : Nat
  stop : Nat
  kind : TokenKind
  value : String := ""
  afterLineBreak : Bool := false
deriving DecidableEq, Repr

structure LexicalError where
  start : Nat
  length : Nat
  message : Message
deriving DecidableEq, Repr

namespace Token

open Text

/-- What a scanning rule finds: where the token ends, its kind, its value and at most one error. -/
structure Lexeme where
  stop : Nat
  kind : TokenKind
  value : String := ""
  error : Option LexicalError := none
deriving DecidableEq, Repr

/-- The lexeme from `start` to `stop` whose value is its text. -/
def Lexeme.verbatim (s : Source) (start stop : Nat) (kind : TokenKind) : Lexeme :=
  { stop, kind, value := s.slice start stop }

def identifierEnd (s : Source) (pos : Nat) : Nat :=
  s.skipWhile isIdentifierPart pos

def scanWord (s : Source) (pos : Nat) : Lexeme :=
  let stop := identifierEnd s pos
  let word := s.slice pos stop
  { stop, value := word
    kind := match Keyword.ofSpelling? word with
      | some k => .keyword k
      | none => .identifier }

/-- Where the contents of a string end that go on at `pos`, and whether a quote stands there. -/
def stringContentsIn (s : Source) (quote : Char) : (n pos : Nat) → Nat × Bool
  | 0, _ => (s.size, false)
  | n + 1, pos =>
    match s.find? (fun c => c == quote || c == '\\' || c == '\n') pos with
    | none => (s.size, false)
    | some p =>
      if s.charAt p == '\\' then
        -- A carriage return with its line feed is one continuation.
        let width := if s.charAt (p + 1) == '\r' && s.charAt (p + 2) == '\n' then 3 else 2
        stringContentsIn s quote n (min (p + width) s.size)
      else (p, s.charAt p != '\n')

def scanString (s : Source) (start : Nat) (quote : Char) : Lexeme :=
  let (stop, closed) := stringContentsIn s quote (s.size - start) (start + 1)
  { stop := if closed then stop + 1 else stop
    kind := .string
    value := Escape.decodeString (s.slice (start + 1) stop)
    error := if closed then none else
      some { start, length := stop - start, message := .unterminatedString } }

def scanTemplate (s : Source) (start : Nat) : Lexeme :=
  match templateLiteralEnd s start with
  | some (stop, true) => { Lexeme.verbatim s (start + 1) (stop - 1) .template with stop }
  | some (stop, false) =>
    { stop, kind := .plainTemplate
      value := Escape.decodeString (s.slice (start + 1) (stop - 1)) }
  | none =>
    { stop := s.size, kind := .plainTemplate
      error := some { start, length := s.size - start, message := .unterminatedTemplate } }

def isDigitOrGap (c : Char) : Bool := c.isDigit || c == '_'

/-- Digits, a fraction and an exponent; an exponent needs a digit. -/
def decimalEnd (s : Source) (start : Nat) : Nat :=
  let whole := s.skipWhile isDigitOrGap start
  let fraction :=
    if s.charAt whole == '.' then s.skipWhile isDigitOrGap (whole + 1) else whole
  if s.charAt fraction == 'e' || s.charAt fraction == 'E' then
    let sign := if s.charAt (fraction + 1) == '+' || s.charAt (fraction + 1) == '-' then 1 else 0
    if (s.charAt (fraction + 1 + sign)).isDigit then
      s.skipWhile isDigitOrGap (fraction + 1 + sign)
    else fraction
  else fraction

def scanNumber (s : Source) (start : Nat) : Lexeme :=
  let radix := s.charAt start == '0' &&
    ['x', 'X', 'o', 'O', 'b', 'B'].contains (s.charAt (start + 1))
  let stop :=
    if radix then s.skipWhile (fun c => isHexDigit c || c == '_') (start + 2)
    else decimalEnd s start
  if s.charAt stop == 'n' then .verbatim s start (stop + 1) .bigInt
  else .verbatim s start stop .numeric

/-- The longest operator or bracket. `?.` before a digit is a question mark. -/
def scanPunctuation (s : Source) (pos : Nat) : Lexeme :=
  let found := TokenKind.punctuation.find? fun (w, kind) =>
    s.holdsAt pos w && !(kind == .punct .questionDot && (s.charAt (pos + 2)).isDigit)
  match found with
  | some (w, kind) => { stop := pos + w.length, kind }
  | none =>
    { stop := pos + 1, kind := .unknown
      error := some { start := pos, length := 1, message := .invalidCharacter } }

/-- The lexeme that begins at `pos`, which is inside the text. -/
def scanLexeme (s : Source) (pos : Nat) : Lexeme :=
  let c := s.charAt pos
  let d := s.charAt (pos + 1)
  if c == '"' || c == '\'' then scanString s pos c
  else if c == '`' then scanTemplate s pos
  else if c.isDigit || (c == '.' && d.isDigit) then scanNumber s pos
  else if c == '#' && isIdentifierStart d then
    { scanWord s (pos + 1) with kind := .privateIdentifier }
  else if isIdentifierStart c then scanWord s pos
  else scanPunctuation s pos

/-- The first token at or after `pos`, with the errors found in it and before it. -/
def scanAt (s : Source) (pos : Nat) : Token × List LexicalError :=
  let trivia := triviaAt s pos
  let start := trivia.stop
  let before := trivia.unclosed.toList.map fun open_ =>
    { start := open_, length := s.size - open_, message := .unterminatedComment : LexicalError }
  if s.size ≤ start then
    ({ start, stop := start, kind := .endOfFile, afterLineBreak := trivia.lineBreak }, before)
  else
    let lexeme := scanLexeme s start
    ({ start, stop := lexeme.stop, kind := lexeme.kind, value := lexeme.value
       afterLineBreak := trivia.lineBreak },
     before ++ lexeme.error.toList)

/-- The slash token read anew as a regular expression. -/
def asRegex (s : Source) (t : Token) : Token × List LexicalError :=
  if t.kind == .punct .slash || t.kind == .assign .slashEquals then
    match regexEnd s t.start with
    | some stop => ({ t with stop, kind := .regex, value := s.slice t.start stop }, [])
    | none =>
      let stop := lineCommentEnd s t.start
      ({ t with stop, kind := .regex },
       [{ start := t.start, length := stop - t.start, message := .unterminatedRegex }])
  else (t, [])

def text (s : Source) (t : Token) : String := s.slice t.start t.stop

end Token

end PropContract
