import PropContract.Token.Scan

/-!
# Lexer

A source with its current token and the errors found so far. The token's end is where the next scan
begins.
-/

namespace PropContract

structure Lexer where
  source : Text.Source
  token : Token
  errors : List LexicalError := []

namespace Lexer

/-- The lexer before its first token, past a byte order mark. -/
def ofString (text : String) : Lexer :=
  let pos := if text.toList.head? == some '\uFEFF' then 3 else 0
  { source := .ofString text, token := { start := pos, stop := pos, kind := .unknown } }

def scan (l : Lexer) : Lexer :=
  let (token, errors) := Token.scanAt l.source l.token.stop
  { l with token, errors := l.errors ++ errors }

/-- Reads the current slash anew as a regular expression. -/
def rescanSlash (l : Lexer) : Lexer :=
  let (token, errors) := l.token.asRegex l.source
  { l with token, errors := l.errors ++ errors }

/-- Lets the next scan begin at `pos`. -/
def resetTo (l : Lexer) (pos : Nat) : Lexer :=
  { l with token := { l.token with stop := min pos l.source.size } }

/-- All tokens up to the end of the text, slashes read as regular expressions if asked. -/
def tokens (regex : Bool) (text : String) : List Token × List LexicalError :=
  let step (l : Lexer) : Lexer := if regex then l.scan.rescanSlash else l.scan
  let rec go : Nat → Lexer → List Token → List Token × List LexicalError
    | 0, l, acc => (acc.reverse, l.errors)
    | n + 1, l, acc =>
      let l := step l
      if l.token.kind == .endOfFile then ((l.token :: acc).reverse, l.errors)
      else go n l (l.token :: acc)
  go (text.utf8ByteSize + 1) (ofString text) []

end Lexer

end PropContract
