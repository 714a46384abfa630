import PropContract.Diagnostic.Message
import PropContract.Token.Lexer
import PropContract.Tree.Arena

/-!
# Parser state

The parser reads one token at a time and adds nodes bottom up. Errors are recorded, never raised:
reading goes on after each of them.
-/

namespace PropContract

structure SyntaxError where
  start : Nat
  length : Nat
  message : Message
  args : List String := []
deriving DecidableEq, Repr

namespace SyntaxError

def text (e : SyntaxError) : String := e.message.format e.args

def code (e : SyntaxError) : Nat := e.message.code

def ofLexical (e : LexicalError) : SyntaxError :=
  { start := e.start, length := e.length, message := e.message }

end SyntaxError

structure ParserState where
  lexer : Lexer
  arena : Arena := {}
  /-- The errors so far, newest first. -/
  errors : List SyntaxError := []
  /-- Where the last consumed token ends. -/
  prevEnd : Nat := 0
  /-- How many expressions are open. -/
  depth : Nat := 0
  /-- Whether errors are dropped, from the nesting limit to the end of the statement. -/
  quiet : Bool := false

abbrev Parser := StateM ParserState

namespace ParserState

def source (s : ParserState) : Text.Source := s.lexer.source

def token (s : ParserState) : Token := s.lexer.token

def kind (s : ParserState) : TokenKind := s.token.kind

/-- Whether the token is the word `text`, which is not reserved. -/
def isWord (s : ParserState) (text : String) : Bool :=
  s.kind == .identifier && s.token.value == text

/-- Whether the token can be a name where reserved words are allowed. -/
def isName (s : ParserState) : Bool :=
  s.kind == .identifier || s.kind.isKeyword

/-- Where the token after the current one begins, going by plain blanks and comments. -/
def peekPos (s : ParserState) : Nat :=
  Token.skipTrivia s.source s.token.stop

def peekChar (s : ParserState) : Char :=
  s.source.charAt s.peekPos

/-- Whether the token after the current one is exactly the word `w`. -/
def peeksWord (s : ParserState) (w : String) : Bool :=
  s.source.startsWithAt s.peekPos w &&
    !Text.isIdentifierPart (s.source.charAt (s.peekPos + w.utf8ByteSize))

/-- Whether `async function` stands here. -/
def isAsyncFunction (s : ParserState) : Bool :=
  s.isWord "async" && s.peeksWord "function"

/-- Whether a statement may end before the token. -/
def mayEndStatement (s : ParserState) : Bool :=
  s.kind == .punct .semicolon || s.kind == .punct .closeBrace || s.kind == .endOfFile ||
    s.token.afterLineBreak

/-- One error for a position is enough: a second one there is dropped. -/
def report (s : ParserState) (e : SyntaxError) : ParserState :=
  if s.quiet || s.errors.head?.any (·.start == e.start) then s
  else { s with errors := e :: s.errors }

def reportHere (s : ParserState) (message : Message) (args : List String) : ParserState :=
  s.report { start := s.token.start, length := s.token.stop - s.token.start, message, args }

def advance (s : ParserState) : ParserState :=
  { s with prevEnd := s.token.stop, lexer := s.lexer.scan }

/-- Counts everything up to `pos` as consumed and moves to the token after it. -/
def jump (s : ParserState) (pos : Nat) : ParserState :=
  { s with prevEnd := pos, lexer := (s.lexer.resetTo pos).scan }

/-- Adds a node from `pos` to the end of the last consumed token. -/
def addNode (s : ParserState) (form : Form) (pos : Nat) (modifiers : Modifiers) : ParserState :=
  { s with arena := s.arena.add { start := pos, stop := max s.prevEnd pos, modifiers, form } }

end ParserState

namespace Parser

def kind : Parser TokenKind := return (← get).kind

def pos : Parser Nat := return (← get).token.start

/-- Enough steps for a loop that consumes a token in each of them. -/
def budget : Parser Nat := return (← get).source.size + 1

def next : Parser Unit := modify (·.advance)

def jumpTo (pos : Nat) : Parser Unit := modify (·.jump pos)

def errorHere (message : Message) (args : List String := []) : Parser Unit :=
  modify (·.reportHere message args)

def accept (k : TokenKind) : Parser Bool := do
  if (← kind) == k then
    next
    return true
  else
    return false

/-- Consumes a token of this kind, or reports that it is missing. -/
def expect (k : TokenKind) : Parser Unit := do
  unless ← accept k do
    errorHere .tokenExpected [k.label]

/-- Consumes the word `text`, which is not reserved, or reports that it is missing. -/
def expectWord (text : String) : Parser Unit := do
  if (← get).isWord text then next else errorHere .tokenExpected [text]

/-- Consumes a semicolon, unless the statement may end without one. -/
def expectSemicolon : Parser Unit := do
  unless ← accept (.punct .semicolon) do
    unless (← get).mayEndStatement do
      errorHere .tokenExpected [";"]

def finish (form : Form) (pos : Nat) (modifiers : Modifiers := {}) : Parser NodeId :=
  modifyGet fun s => (s.arena.size, s.addNode form pos modifiers)

def finishChild (form : Form) (pos : Nat) (modifiers : Modifiers := {}) : Parser Child :=
  some <$> finish form pos modifiers

/-- Adds the omitted element before the comma at `pos`. -/
def finishHole (pos : Nat) : Parser NodeId :=
  modifyGet fun s =>
    (s.arena.size, { s with arena := s.arena.add { start := pos, stop := pos, form := .omitted } })

/-- Reports that what the current token opens is never closed, and moves to the end of the text. -/
def giveUp (opener : String) : Parser Unit := do
  errorHere .unterminatedBlock [opener]
  jumpTo (← get).source.size

/-- Steps over the bracketed group that the current token opens; false if it is never closed. -/
def skipGroup : Parser Bool := do
  let s ← get
  match Token.groupEnd s.source s.token.start with
  | some stop =>
    jumpTo stop
    return true
  | none =>
    giveUp s.kind.label
    return false

/-- A block in braces, of which only the extent is kept. -/
def block : Parser Child := do
  if (← kind) == .punct .openBrace then
    let start ← pos
    let _ ← skipGroup
    finishChild .block start
  else
    errorHere .tokenExpected ["\x7b"]
    return none

def isOpener (k : TokenKind) : Bool :=
  k == .punct .openBrace || k == .punct .openParen || k == .punct .openBracket

def resyncIn : (n : Nat) → Parser Unit
  | 0 => return
  | n + 1 => do
    let s ← get
    if s.kind == .endOfFile then return
    else if s.kind == .punct .semicolon then next
    else if s.token.afterLineBreak then return
    else if isOpener s.kind then
      if ← skipGroup then resyncIn n
    else
      next
      resyncIn n

/-- Moves to where a statement may begin: past a semicolon, or to the first token on a new line. -/
def resync : Parser Unit := do resyncIn (← budget)

/-- Counts one more open expression while `p` runs. Past the limit, the rest of the statement is
skipped instead, with one error. -/
def nested (p : Parser Child) : Parser Child := do
  let s ← get
  if maxExpressionDepth ≤ s.depth then
    unless s.quiet do
      errorHere .nestingTooDeep
      modify fun s => { s with quiet := true }
      resync
    return none
  else
    modify fun s => { s with depth := s.depth + 1 }
    let result ← p
    modify fun s => { s with depth := s.depth - 1 }
    return result

/-- Whether a list that `close` ends has no further item. -/
def atListEnd (close : Punct) : Parser Bool := do
  let k ← kind
  return k == .punct close || k == .endOfFile

/-- At most `n` items with commas between them, up to `close`. -/
def commaListIn {α : Type} (close : Punct) (item : Parser α) : (n : Nat) → Parser (List α)
  | 0 => return []
  | n + 1 => do
    if ← atListEnd close then return []
    let x ← item
    if ← accept (.punct .comma) then
      return x :: (← commaListIn close item n)
    else
      return [x]

/-- Items with commas between them, up to `close`, which is consumed. -/
def commaList {α : Type} (close : Punct) (item : Parser α) : Parser (List α) := do
  let items ← commaListIn close item (← budget)
  expect (.punct close)
  return items

/-- At most `n` items and holes up to a closing bracket. -/
def holedListIn {α : Type} (hole item : Parser α) : (n : Nat) → Parser (List α)
  | 0 => return []
  | n + 1 => do
    if ← atListEnd .closeBracket then return []
    if (← kind) == .punct .comma then
      let x ← hole
      return x :: (← holedListIn hole item n)
    let x ← item
    if ← accept (.punct .comma) then
      return x :: (← holedListIn hole item n)
    else
      return [x]

/-- Items with commas between them, up to a closing bracket, which is consumed. A comma where an item
should stand is a hole, which `hole` consumes. -/
def holedList {α : Type} (hole item : Parser α) : Parser (List α) := do
  let items ← holedListIn hole item (← budget)
  expect (.punct .closeBracket)
  return items

end Parser

end PropContract
