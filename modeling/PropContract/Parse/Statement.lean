import PropContract.Parse.Pattern

/-!
# Statements

Imports, exports, variables, functions and classes are read in full. Statements that cannot declare
a component, such as loops and blocks, are stepped over.
-/

namespace PropContract

/-- Whether the word begins a statement that is stepped over. -/
def Keyword.beginsSkipped : Keyword → Bool
  | .ifWord | .forWord | .whileWord | .doWord | .switchWord | .tryWord | .withWord | .returnWord
  | .throwWord | .breakWord | .continueWord | .debuggerWord => true
  | _ => false

/-- Whether the token goes on with a statement after one of its blocks. -/
def TokenKind.continuesBlock : TokenKind → Bool
  | .keyword .elseWord | .keyword .catchWord | .keyword .finallyWord | .keyword .whileWord => true
  | _ => false

/-- Whether a statement goes on after this word even on a new line. -/
def TokenKind.wantsStatement : TokenKind → Bool
  | .keyword .elseWord | .keyword .doWord | .keyword .tryWord | .keyword .finallyWord => true
  | _ => false

namespace Parser

/-! ## Statements without declarations -/

def expressionStatement : Parser Child := do
  let start ← pos
  let e ← commaExpression expression
  expectSemicolon
  finishChild (.expressionStatement e) start

/-- Steps over the rest of a statement in at most `n` steps. `first` holds at its first token;
`goesOn` holds where a line break does not end it, as after `if (…)` and `else`. -/
def skipStatementIn : (n : Nat) → (first goesOn : Bool) → Parser Unit
  | 0, _, _ => return
  | n + 1, first, goesOn => do
    let s ← get
    if s.kind == .endOfFile || s.kind == .punct .closeBrace then return
    else if s.kind == .punct .semicolon then next
    else if !first && !goesOn && s.token.afterLineBreak then return
    else if s.kind == .punct .openBrace then
      if ← skipGroup then
        if (← kind).continuesBlock then skipStatementIn n false false
    else if isOpener s.kind then
      if ← skipGroup then skipStatementIn n false (s.kind == .punct .openParen)
    else
      next
      skipStatementIn n false s.kind.wantsStatement

def skippedStatement : Parser Child := do
  let start ← pos
  skipStatementIn (← budget) true false
  finishChild .skippedStatement start

def emptyStatement : Parser Child := tokenNode fun _ => .emptyStatement

/-! ## Specifiers -/

def moduleSpecifier : Parser Child := do
  if (← kind) == .string then literal .string
  else
    errorHere .tokenExpected ["string literal"]
    return none

/-- What may stand after a module specifier, such as `with { type: "json" }`. -/
def importAttributes : Parser Unit := do
  let s ← get
  if (s.kind == .keyword .withWord || s.isWord "assert") && !s.token.afterLineBreak then
    next
    if (← kind) == .punct .openBrace then
      let _ ← skipGroup

/-- A name that a module exports: an identifier, a reserved word or a string. -/
def moduleExportName : Parser Child := do
  if (← kind) == .string then literal .string else identifierName

/-- A name, or two names with `as` between them. -/
def specifier (form : Child → Child → Form) : Parser NodeId := do
  let start ← pos
  let first ← moduleExportName
  if (← get).isWord "as" then
    next
    finish (form first (← moduleExportName)) start
  else finish (form none first) start

def namedSpecifiers (form : Child → Child → Form) : Parser (List NodeId) := do
  next
  commaList .closeBrace (specifier form)

/-! ## Imports -/

/-- The bindings after the default one of an import: a namespace or names in braces. -/
def importBindings : Parser (Child × Option (List NodeId)) := do
  if ← accept (.punct .asterisk) then
    expectWord "as"
    return (← identifier, none)
  else if (← kind) == .punct .openBrace then
    return (none, some (← namedSpecifiers .importSpecifier))
  else
    errorHere .tokenExpected ["\x7b"]
    return (none, none)

/-- All bindings of an import, up to `from`. -/
def importClause : Parser (Child × Child × Option (List NodeId)) := do
  let defaultName ← identifier?
  let more ← if defaultName.isSome then accept (.punct .comma) else pure true
  let (ns, named) ← if more then importBindings else pure (none, none)
  expectWord "from"
  return (defaultName, ns, named)

def importDeclaration : Parser Child := do
  let start ← pos
  next
  let (defaultName, ns, named) ←
    if (← kind) == .string then pure (none, none, none) else importClause
  let specifier ← moduleSpecifier
  importAttributes
  expectSemicolon
  finishChild (.importDeclaration defaultName ns named specifier) start

/-! ## Declarations -/

def functionDeclaration (start : Nat) (modifiers : Modifiers) : Parser Child := do
  let (modifiers, name, body) ← functionLike modifiers
  finishChild (.functionDeclaration name body) start modifiers

def classDeclaration (start : Nat) (modifiers : Modifiers) : Parser Child := do
  let (name, heritage, members) ← classLike expression
  finishChild (.classDeclaration name heritage members) start modifiers

def variableDeclaration : Parser NodeId := do
  let start ← pos
  let name ← binding
  let value ← initializer expression
  finish (.variableDeclaration name value) start

def variableDeclarationsIn : (n : Nat) → Parser (List NodeId)
  | 0 => return []
  | n + 1 => do
    let declaration ← variableDeclaration
    if ← accept (.punct .comma) then return declaration :: (← variableDeclarationsIn n)
    else return [declaration]

def variableStatement (word : VariableWord) (start : Nat) (modifiers : Modifiers) :
    Parser Child := do
  next
  let declarations ← variableDeclarationsIn (← budget)
  expectSemicolon
  finishChild (.variableStatement word declarations) start modifiers

/-! ## Exports -/

/-- `export *`, whose star is the current token. -/
def exportAll (start : Nat) : Parser Child := do
  next
  let ns ←
    if (← get).isWord "as" then do
      next
      moduleExportName
    else pure none
  expectWord "from"
  let specifier ← moduleSpecifier
  importAttributes
  expectSemicolon
  finishChild (.exportDeclaration none ns specifier) start

/-- Exported names in braces, which may come from another module. -/
def exportNamed (start : Nat) : Parser Child := do
  let clause ← namedSpecifiers .exportSpecifier
  let specifier ←
    if (← get).isWord "from" then do
      next
      let specifier ← moduleSpecifier
      importAttributes
      pure specifier
    else pure none
  expectSemicolon
  finishChild (.exportDeclaration (some clause) none specifier) start

def exportDefault (start : Nat) : Parser Child := do
  let modifiers : Modifiers := { exported := true, isDefault := true }
  let s ← get
  if s.kind == .keyword .classWord then classDeclaration start modifiers
  else if s.kind == .keyword .functionWord || s.isAsyncFunction then
    functionDeclaration start modifiers
  else
    let e ← expression .assignment
    expectSemicolon
    finishChild (.exportAssignment e) start

def exportDeclaration : Parser Child := do
  let start ← pos
  next
  if ← accept (.keyword .defaultWord) then exportDefault start
  else
    let modifiers : Modifiers := { exported := true }
    let s ← get
    match s.kind with
    | .punct .asterisk => exportAll start
    | .punct .openBrace => exportNamed start
    | .keyword .constWord => variableStatement .constWord start modifiers
    | .keyword .letWord => variableStatement .letWord start modifiers
    | .keyword .varWord => variableStatement .varWord start modifiers
    | .keyword .classWord => classDeclaration start modifiers
    | .keyword .functionWord => functionDeclaration start modifiers
    | _ =>
      if s.isAsyncFunction then functionDeclaration start modifiers
      else
        errorHere .statementExpected
        return none

/-! ## Any statement -/

def statement : Parser Child := do
  let s ← get
  let start := s.token.start
  match s.kind with
  | .keyword .importWord =>
    -- `import(…)` and `import.meta` are expressions.
    if ['(', '.'].contains s.peekChar then expressionStatement else importDeclaration
  | .keyword .exportWord => exportDeclaration
  | .keyword .constWord => variableStatement .constWord start {}
  | .keyword .letWord => variableStatement .letWord start {}
  | .keyword .varWord => variableStatement .varWord start {}
  | .keyword .classWord => classDeclaration start {}
  | .keyword .functionWord => functionDeclaration start {}
  | .punct .semicolon => emptyStatement
  | .punct .openBrace => skippedStatement
  | .keyword k => if k.beginsSkipped then skippedStatement else expressionStatement
  | _ => if s.isAsyncFunction then functionDeclaration start {} else expressionStatement

end Parser

end PropContract
