import PropContract.Parse.State

/-!
# Expressions

Expressions, functions and classes. Bodies and parameters of functions, and markup, are stepped over.
-/

namespace PropContract

/-- How tightly a binary operator binds; 0 for any other token. -/
def TokenKind.precedence : TokenKind → Nat
  | .punct .questionQuestion => 1
  | .punct .barBar => 2
  | .punct .ampersandAmpersand => 3
  | .punct .bar => 4
  | .punct .caret => 5
  | .punct .ampersand => 6
  | .punct .equalsEquals | .punct .exclamationEquals
  | .punct .equalsEqualsEquals | .punct .exclamationEqualsEquals => 7
  | .punct .lessThan | .punct .greaterThan
  | .punct .lessThanEquals | .punct .greaterThanEquals
  | .keyword .instanceOfWord | .keyword .inWord => 8
  | .punct .lessThanLessThan | .punct .greaterThanGreaterThan
  | .punct .greaterThanGreaterThanGreaterThan => 9
  | .punct .plus | .punct .minus => 10
  | .punct .asterisk | .punct .slash | .punct .percent => 11
  | .punct .asteriskAsterisk => 12
  | _ => 0

def TokenKind.isPrefixOperator : TokenKind → Bool
  | .punct .plus | .punct .minus | .punct .tilde | .punct .exclamation
  | .keyword .typeOfWord | .keyword .voidWord | .keyword .deleteWord
  | .punct .plusPlus | .punct .minusMinus => true
  | _ => false

def TokenKind.isPostfixOperator : TokenKind → Bool
  | .punct .plusPlus | .punct .minusMinus => true
  | _ => false

/-- Where the parameters of an arrow function that begin at `pos` are followed by their arrow: the
offset past the arrow. -/
def arrowEnd? (s : Text.Source) (pos : Nat) : Option Nat := do
  let c := s.charAt pos
  let stop ←
    if c == '(' then Token.groupEnd s pos
    else if Text.isIdentifierStart c then some (s.skipWhile Text.isIdentifierPart pos)
    else none
  let arrow := Token.skipTrivia s stop
  if s.startsWithAt arrow "=>" then some (arrow + 2) else none

/-- The offset past the arrow of the arrow function that begins at the current token, and whether the
function is asynchronous. The word `async` alone may also be the parameter. -/
def ParserState.arrowFunction? (s : ParserState) : Option (Nat × Bool) :=
  let plain := (arrowEnd? s.source s.token.start).map (·, false)
  if s.isWord "async" then
    ((arrowEnd? s.source s.peekPos).map (·, true)).or plain
  else if s.kind == .identifier || s.kind == .punct .openParen then plain
  else none

/-- Whether `get`, `set` or `async` begins a method of an object literal, rather than naming a
property. -/
def ParserState.isMethodModifier (s : ParserState) : Bool :=
  (s.isWord "get" || s.isWord "set" || s.isWord "async") &&
    !([',', ':', '(', '}', '=', '\x00'].contains s.peekChar)

/-- Whether `word` stands before a class member, rather than naming it. -/
def ParserState.isMemberModifier (s : ParserState) (word : String) : Bool :=
  s.isWord word && !(['(', '=', ';', '}', '\x00'].contains s.peekChar)

/-- Whether a line ends between the current token and the one after it. -/
def ParserState.lineEndsAfterToken (s : ParserState) : Bool :=
  (s.source.slice s.token.stop s.peekPos).any Text.isLineBreak

/-- The kinds of expression that contain each other. -/
inductive ExpressionKind where
  | assignment
  | unary
  /-- Operands and operators that bind tighter than `above`. -/
  | binary (above : Nat)
  | leftHandSide
  | new
deriving DecidableEq, Repr

namespace Parser

/-! ## Names and literals -/

/-- An identifier or a reserved word, as a name. -/
def identifierName : Parser Child := do
  let s ← get
  if s.isName then
    next
    finishChild (.identifier s.token.value) s.token.start
  else
    errorHere .identifierExpected
    return none

def identifier : Parser Child := do
  if (← kind) == .identifier then identifierName
  else
    errorHere .identifierExpected
    return none

def identifier? : Parser Child := do
  if (← kind) == .identifier then identifierName else return none

def tokenNode (form : String → Form) : Parser Child := do
  let s ← get
  next
  finishChild (form s.token.value) s.token.start

def literal (k : LiteralKind) : Parser Child := tokenNode (.literal k)

def constant (w : ConstantWord) : Parser Child := tokenNode fun _ => .constant w

/-- What stands after the dot of a property access. -/
def memberName : Parser Child := do
  if (← kind) == .privateIdentifier then tokenNode .privateIdentifier else identifierName

/-! ## Functions -/

/-- A function from `async` or `function` to the end of its body: its modifiers added to the given
ones, its name and its body. -/
def functionLike (modifiers : Modifiers) : Parser (Modifiers × Child × Child) := do
  let isAsync := (← get).isWord "async"
  if isAsync then next
  expect (.keyword .functionWord)
  let isGenerator ← accept (.punct .asterisk)
  let name ← identifier?
  if (← kind) == .punct .openParen then
    let _ ← skipGroup
  else
    errorHere .tokenExpected ["("]
  let body ← block
  return ({ modifiers with
    isAsync := modifiers.isAsync || isAsync
    isGenerator := modifiers.isGenerator || isGenerator }, name, body)

def functionExpression : Parser Child := do
  let start ← pos
  let (modifiers, name, body) ← functionLike {}
  finishChild (.functionExpression name body) start modifiers

/-- A method whose parameters begin here, if they do. -/
def method? (start : Nat) (modifiers : Modifiers) (name : NodeId) : Parser Child := do
  if (← kind) == .punct .openParen then
    let _ ← skipGroup
    let body ← block
    finishChild (.methodDeclaration name body) start modifiers
  else return none

/-! ## Markup -/

/-- An element of markup, of which only the extent is kept. -/
def markup : Parser Child := do
  let s ← get
  match Token.markupEnd s.source s.token.start with
  | some stop =>
    jumpTo stop
    finishChild .markup s.token.start
  | none =>
    giveUp "<"
    return none

/-! ## Expressions over smaller expressions -/

section

variable (parse : ExpressionKind → Parser Child)

/-- At most `n` further operands of a comma expression. -/
def commaRest (start : Nat) : (n : Nat) → Child → Parser Child
  | 0, left => return left
  | n + 1, left => do
    if ← accept (.punct .comma) then
      let right ← parse .assignment
      commaRest start n (← finishChild (.binary left (.punct .comma) right) start)
    else return left

def commaExpression : Parser Child := do
  let start ← pos
  let first ← parse .assignment
  commaRest parse start (← budget) first

def element : Parser Child := do
  let start ← pos
  if ← accept (.punct .dotDotDot) then
    finishChild (.spreadElement (← parse .assignment)) start
  else parse .assignment

def callArguments : Parser (List Child) := do
  expect (.punct .openParen)
  commaList .closeParen (element parse)

def propertyName : Parser Child := do
  let s ← get
  match s.kind with
  | .string => literal .string
  | .numeric | .bigInt => literal .numeric
  | .privateIdentifier => tokenNode .privateIdentifier
  | .punct .openBracket =>
    next
    let e ← parse .assignment
    expect (.punct .closeBracket)
    finishChild (.computedName e) s.token.start
  | _ =>
    if s.isName then identifierName
    else
      errorHere .propertyExpected
      return none

/-! ### Classes -/

/-- What stands after an equals sign, if there is one. -/
def initializer : Parser Child := do
  if ← accept (.assign .equals) then parse .assignment else return none

/-- A field, whose name has been read. -/
def field (start : Nat) (modifiers : Modifiers) (name : NodeId) : Parser Child := do
  let value ← initializer parse
  expectSemicolon
  finishChild (.propertyDeclaration name value) start modifiers

def classMemberRest (start : Nat) (modifiers : Modifiers) : Parser Child := do
  let s ← get
  let isAsync := s.isMemberModifier "async" && !s.lineEndsAfterToken
  if isAsync then next
  let isGenerator ← accept (.punct .asterisk)
  let s ← get
  let isAccessor := s.isMemberModifier "get" || s.isMemberModifier "set"
  if isAccessor then next
  let modifiers := { modifiers with isAsync, isGenerator }
  match ← propertyName parse with
  | none => return none
  | some name =>
    if (← kind) == .punct .openParen then method? start modifiers name
    else if isAsync || isGenerator || isAccessor then
      errorHere .tokenExpected ["("]
      return none
    else field parse start modifiers name

def classMember : Parser Child := do
  let start ← pos
  if (← get).isMemberModifier "static" then
    next
    if (← kind) == .punct .openBrace then
      let body ← block
      finishChild (.methodDeclaration none body) start { isStatic := true }
    else classMemberRest parse start { isStatic := true }
  else classMemberRest parse start {}

/-- At most `n` members and semicolons. A token that begins no member is skipped. -/
def classMembersIn : (n : Nat) → Parser (List NodeId)
  | 0 => return []
  | n + 1 => do
    if ← atListEnd .closeBrace then return []
    if ← accept (.punct .semicolon) then classMembersIn n
    else
      let start ← pos
      let member ← classMember parse
      if (← pos) == start then next
      return member.toList ++ (← classMembersIn n)

def classMembers : Parser (List NodeId) := do
  if ← accept (.punct .openBrace) then
    let members ← classMembersIn parse (← budget)
    expect (.punct .closeBrace)
    return members
  else
    errorHere .tokenExpected ["\x7b"]
    return []

def classLike : Parser (Child × Child × List NodeId) := do
  expect (.keyword .classWord)
  let name ← identifier?
  let heritage ←
    if ← accept (.keyword .extendsWord) then parse .leftHandSide else pure none
  let members ← classMembers parse
  return (name, heritage, members)

/-! ### Literals with parts -/

def arrayLiteral : Parser Child := do
  let start ← pos
  next
  let hole : Parser Child := do
    let hole ← pos
    next
    return some (← finishHole hole)
  let elements ← holedList hole (element parse)
  finishChild (.arrayLiteral elements) start

/-- A property whose name has been read and that is no method. -/
def propertyRest (start : Nat) (name : NodeId) : Parser Child := do
  if ← accept (.punct .colon) then
    finishChild (.propertyAssignment name (← parse .assignment)) start
  else if ((← get).arena.get? name).any (·.isIdentifier) then
    -- A default is allowed where the literal turns out to be a pattern; it is not kept.
    let _ ← initializer parse
    finishChild (.shorthandProperty name) start
  else
    errorHere .tokenExpected [":"]
    return none

def objectElement : Parser Child := do
  let start ← pos
  if ← accept (.punct .dotDotDot) then
    finishChild (.spreadAssignment (← parse .assignment)) start
  else
    let s ← get
    let hasModifier := s.isMethodModifier
    if hasModifier then next
    let isGenerator ← accept (.punct .asterisk)
    let modifiers : Modifiers :=
      { isAsync := hasModifier && s.isWord "async", isGenerator }
    match ← propertyName parse with
    | none => return none
    | some name =>
      if (← kind) == .punct .openParen then method? start modifiers name
      else if hasModifier || isGenerator then
        errorHere .tokenExpected ["("]
        return none
      else propertyRest parse start name

def objectLiteral : Parser Child := do
  let start ← pos
  next
  let elements ← commaList .closeBrace (objectElement parse)
  finishChild (.objectLiteral elements.reduceOption) start

/-! ### Primary expressions -/

def parenthesized : Parser Child := do
  let start ← pos
  next
  let e ← commaExpression parse
  expect (.punct .closeParen)
  finishChild (.parenthesized e) start

def classExpression : Parser Child := do
  let start ← pos
  let (name, heritage, members) ← classLike parse
  finishChild (.classExpression name heritage members) start

def regexLiteral : Parser Child := do
  modify fun s => { s with lexer := s.lexer.rescanSlash }
  literal .regex

def primary : Parser Child := do
  let s ← get
  match s.kind with
  | .identifier => if s.isAsyncFunction then functionExpression else identifierName
  | .string => literal .string
  | .numeric => literal .numeric
  | .bigInt => literal .bigInt
  | .plainTemplate => literal .plainTemplate
  | .template => literal .template
  | .punct .slash | .assign .slashEquals => regexLiteral
  | .keyword .trueWord => constant .trueWord
  | .keyword .falseWord => constant .falseWord
  | .keyword .nullWord => constant .nullWord
  | .keyword .thisWord => constant .thisWord
  | .keyword .superWord => constant .superWord
  -- `import(…)` and `import.meta` go on as a call and as a property access.
  | .keyword .importWord => identifierName
  | .privateIdentifier => memberName
  | .punct .openParen => parenthesized parse
  | .punct .openBracket => arrayLiteral parse
  | .punct .openBrace => objectLiteral parse
  | .keyword .functionWord => functionExpression
  | .keyword .classWord => classExpression parse
  | .punct .lessThan => markup
  | _ =>
    errorHere .expressionExpected
    return none

/-! ### Accesses and calls -/

/-- The argument of an element access, whose bracket has been consumed. -/
def elementArgument : Parser Child := do
  let argument ← commaExpression parse
  expect (.punct .closeBracket)
  return argument

/-- What `?.` makes of `target`. -/
def optionalLink (calls : Bool) (start : Nat) (target : Child) : Parser Child := do
  if calls && (← kind) == .punct .openParen then
    finishChild (.call target (← callArguments parse) true) start
  else if ← accept (.punct .openBracket) then
    finishChild (.elementAccess target (← elementArgument parse) true) start
  else
    finishChild (.propertyAccess target (← memberName) true) start

/-- At most `n` accesses, calls and templates after `target`; calls only if `calls` is set. -/
def linksIn (calls : Bool) (start : Nat) : (n : Nat) → Child → Parser Child
  | 0, target => return target
  | n + 1, target => do
    match ← kind with
    | .punct .dot =>
      next
      linksIn calls start n (← finishChild (.propertyAccess target (← memberName) false) start)
    | .punct .questionDot =>
      next
      linksIn calls start n (← optionalLink parse calls start target)
    | .punct .openBracket =>
      next
      let argument ← elementArgument parse
      linksIn calls start n (← finishChild (.elementAccess target argument false) start)
    | .punct .openParen =>
      if calls then
        let arguments ← callArguments parse
        linksIn calls start n (← finishChild (.call target arguments false) start)
      else return target
    | .plainTemplate =>
      let template ← literal .plainTemplate
      linksIn calls start n (← finishChild (.taggedTemplate target template) start)
    | .template =>
      let template ← literal .template
      linksIn calls start n (← finishChild (.taggedTemplate target template) start)
    | _ => return target

def links (calls : Bool) (start : Nat) (target : Child) : Parser Child := do
  linksIn parse calls start (← budget) target

/-- A `new` expression or a primary one. -/
def newOrPrimary : Parser Child := do
  if (← kind) == .keyword .newWord then parse .new else primary parse

def leftHandSide : Parser Child := do
  let start ← pos
  links parse true start (← newOrPrimary parse)

def newExpression : Parser Child := do
  let start ← pos
  next
  let callee ← links parse false start (← newOrPrimary parse)
  let arguments ←
    if (← kind) == .punct .openParen then some <$> callArguments parse else pure none
  finishChild (.new callee arguments) start

/-! ### Operators -/

def unary : Parser Child := do
  let s ← get
  if s.kind.isPrefixOperator then
    next
    finishChild (.prefixUnary s.kind (← parse .unary)) s.token.start
  else
    let operand ← parse .leftHandSide
    let t := (← get).token
    if t.kind.isPostfixOperator && !t.afterLineBreak then
      next
      finishChild (.postfixUnary t.kind operand) s.token.start
    else return operand

/-- At most `n` operators that bind tighter than `above`, with their right operands. The power
operator groups to the right, all others to the left. -/
def binaryRest (above start : Nat) : (n : Nat) → Child → Parser Child
  | 0, left => return left
  | n + 1, left => do
    let operator ← kind
    let precedence := operator.precedence
    if precedence = 0 ∨ precedence ≤ above then return left
    else
      next
      let right ← parse <| .binary <|
        if operator = .punct .asteriskAsterisk then precedence - 1 else precedence
      binaryRest above start n (← finishChild (.binary left operator right) start)

def binary (above : Nat) : Parser Child := do
  let start ← pos
  let left ← parse .unary
  binaryRest parse above start (← budget) left

def conditional : Parser Child := do
  let start ← pos
  let condition ← parse (.binary 0)
  if ← accept (.punct .question) then
    let whenTrue ← parse .assignment
    expect (.punct .colon)
    let whenFalse ← parse .assignment
    finishChild (.conditional condition whenTrue whenFalse) start
  else return condition

def arrowFunction (stop : Nat) (isAsync : Bool) : Parser Child := do
  let start ← pos
  jumpTo stop
  let body ← if (← kind) == .punct .openBrace then block else parse .assignment
  finishChild (.arrowFunction body) start { isAsync }

def assignment : Parser Child := do
  match (← get).arrowFunction? with
  | some (stop, isAsync) => arrowFunction parse stop isAsync
  | none =>
    let start ← pos
    let left ← conditional parse
    let operator ← kind
    if operator.isAssignment then
      next
      finishChild (.binary left operator (← parse .assignment)) start
    else return left

/-- One level of an expression, with `parse` for the levels below it. -/
def expressionStep : ExpressionKind → Parser Child
  | .assignment => nested (assignment parse)
  | .unary => nested (unary parse)
  | .binary above => binary parse above
  | .leftHandSide => leftHandSide parse
  | .new => newExpression parse

end

def expressionIn : (n : Nat) → ExpressionKind → Parser Child
  | 0, _ => return none
  | n + 1, k => expressionStep (expressionIn n) k

/-- Reads an expression. Between two consumed tokens there are at most five levels, so the levels
never run out. -/
def expression (k : ExpressionKind) : Parser Child := do
  expressionIn (6 * (← budget)) k

end Parser

end PropContract
