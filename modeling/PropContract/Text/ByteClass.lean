/-!
# Byte classes

The lexer reads UTF-8 bytes, each as the character of the same number (below U+0100). A byte at or
above `0x80` belongs to an identifier, so identifiers in any script are accepted undecoded.
-/

namespace PropContract.Text

def isIdentifierStart (c : Char) : Bool :=
  c.isAlpha || c == '_' || c == '$' || c.toNat ≥ 0x80

def isIdentifierPart (c : Char) : Bool :=
  isIdentifierStart c || c.isDigit

def isLineBreak (c : Char) : Bool :=
  c == '\n' || c == '\r'

/-- Blanks that do not end a line: space, tab, vertical tab and form feed. -/
def isLineBlank (c : Char) : Bool :=
  c == ' ' || c == '\t' || c == '\x0b' || c == '\x0c'

/-- ASCII white space without the vertical tab. -/
def isAsciiSpace (c : Char) : Bool :=
  c == ' ' || c == '\t' || c == '\n' || c == '\x0c' || c == '\r'

/-- Tag names also hold `-`, `.` and `:`, as in `<my-element>`, `<Foo.Bar>` and `<svg:rect>`. -/
def isTagNamePart (c : Char) : Bool :=
  isIdentifierPart c || c == '-' || c == '.' || c == ':'

def isHexDigit (c : Char) : Bool :=
  c.isDigit || ('a' ≤ c && c ≤ 'f') || ('A' ≤ c && c ≤ 'F')

end PropContract.Text
