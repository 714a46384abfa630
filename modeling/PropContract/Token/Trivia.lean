import PropContract.Text.Source

/-!
# Blanks and comments

What stands between tokens. There are two readings: the lexer's own, which also knows the Unicode
line separators and the no-break space, and a plainer one for looking ahead.
-/

namespace PropContract.Token

open Text

/-- The line break that ends a line comment, or the end of the text. -/
def lineCommentEnd (s : Source) (pos : Nat) : Nat :=
  (s.find? isLineBreak pos).getD s.size

/-- The first of the `n` offsets from `pos` on where `*/` stands. -/
def findCommentClose (s : Source) : (n pos : Nat) → Option Nat
  | 0, _ => none
  | n + 1, pos =>
    if s.charAt pos == '*' && s.charAt (pos + 1) == '/' then some pos
    else findCommentClose s n (pos + 1)

/-- The end of the block comment at `pos`, and whether it holds a line break. -/
def blockCommentEnd (s : Source) (pos : Nat) : Option (Nat × Bool) :=
  let body := pos + 2
  (findCommentClose s (s.size - body) body).map fun close =>
    (close + 2, (s.findIn isLineBreak (close - body) body).isSome)

/-- A run of blanks and comments: where it ends, whether it holds a line break, and where a block
comment that is never closed begins. -/
structure Trivia where
  stop : Nat
  lineBreak : Bool := false
  unclosed : Option Nat := none
deriving DecidableEq, Repr

/-- The run of at most `n` blanks and comments at `pos`. -/
def triviaIn (s : Source) : (n pos : Nat) → (lineBreak : Bool) → Trivia
  | 0, pos, lineBreak => { stop := pos, lineBreak }
  | n + 1, pos, lineBreak =>
    let c := s.charAt pos
    let d := s.charAt (pos + 1)
    if isLineBreak c then triviaIn s n (pos + 1) true
    else if isLineBlank c then triviaIn s n (pos + 1) lineBreak
    else if c == '/' && d == '/' then triviaIn s n (lineCommentEnd s pos) lineBreak
    else if c == '/' && d == '*' then
      match blockCommentEnd s pos with
      | some (stop, broken) => triviaIn s n stop (lineBreak || broken)
      | none => { stop := s.size, lineBreak, unclosed := some pos }
    -- U+2028 and U+2029
    else if c == '\u00e2' && d == '\u0080' &&
        (s.charAt (pos + 2) == '\u00a8' || s.charAt (pos + 2) == '\u00a9') then
      triviaIn s n (pos + 3) true
    -- U+00A0
    else if c == '\u00c2' && d == '\u00a0' then triviaIn s n (pos + 2) lineBreak
    else { stop := pos, lineBreak }

def triviaAt (s : Source) (pos : Nat) : Trivia :=
  triviaIn s (s.size - pos) pos false

/-- The plainer reading: the end of at most `n` ASCII blanks and comments. -/
def skipTriviaIn (s : Source) : (n pos : Nat) → Nat
  | 0, pos => pos
  | n + 1, pos =>
    let c := s.charAt pos
    let d := s.charAt (pos + 1)
    if isLineBreak c || isLineBlank c then skipTriviaIn s n (pos + 1)
    else if c == '/' && d == '/' then skipTriviaIn s n (lineCommentEnd s pos)
    else if c == '/' && d == '*' then
      match blockCommentEnd s pos with
      | some (stop, _) => skipTriviaIn s n stop
      | none => s.size
    else pos

def skipTrivia (s : Source) (pos : Nat) : Nat :=
  skipTriviaIn s (s.size - pos) pos

end PropContract.Token
