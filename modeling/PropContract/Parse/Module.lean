import PropContract.Parse.Statement

/-!
# Modules

A module is a source file with its syntax tree and the errors found in it, in the order of the text.
-/

namespace PropContract

namespace Parser

/-- A statement of the file. After an error, what is left of it is skipped; a token that begins no
statement is skipped too. -/
def fileStatement : Parser Child := do
  let before ← get
  if before.kind == .punct .closeBrace then
    errorHere .statementExpected
    next
    return none
  else
    let statement ← statement
    if before.errors.length < (← get).errors.length then resync
    modify fun s => { s with quiet := false, depth := 0 }
    let s ← get
    if s.token.start == before.token.start && s.kind != .endOfFile then next
    return statement

def fileStatementsIn : (n : Nat) → Parser (List NodeId)
  | 0 => return []
  | n + 1 => do
    if (← kind) == .endOfFile then return []
    else
      let statement ← fileStatement
      return statement.toList ++ (← fileStatementsIn n)

def fileStatements : Parser (List NodeId) := do
  next
  fileStatementsIn (← budget)

end Parser

/-- A source file with its tree. The root is the last node. -/
structure Module where
  source : Text.Source
  fileName : String
  arena : Arena
  root : NodeId
  errors : List SyntaxError

namespace Module

def parse (fileName text : String) : Module :=
  let (statements, s) := Parser.fileStatements.run { lexer := Lexer.ofString text }
  let errors := s.errors.reverse ++ s.lexer.errors.map .ofLexical
  { source := s.source
    fileName
    arena := s.arena.add
      { start := 0, stop := s.source.size, form := .sourceFile statements fileName }
    root := s.arena.size
    errors := errors.mergeSort fun a b => a.start ≤ b.start }

def statements (m : Module) : List NodeId :=
  m.arena.statements (some m.root)

end Module

end PropContract
