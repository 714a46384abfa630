/-!
# Token kinds

Words, punctuation and literals of a module, with their spellings.
-/

namespace PropContract

inductive Keyword where
  | breakWord | caseWord | catchWord | classWord | constWord | continueWord | debuggerWord
  | defaultWord | deleteWord | doWord | elseWord | exportWord | extendsWord | falseWord
  | finallyWord | forWord | functionWord | ifWord | importWord | inWord | instanceOfWord
  | letWord | newWord | nullWord | returnWord | superWord | switchWord | thisWord | throwWord
  | trueWord | tryWord | typeOfWord | varWord | voidWord | whileWord | withWord
deriving DecidableEq, Repr

namespace Keyword

def all : List Keyword :=
  [.breakWord, .caseWord, .catchWord, .classWord, .constWord, .continueWord, .debuggerWord,
   .defaultWord, .deleteWord, .doWord, .elseWord, .exportWord, .extendsWord, .falseWord,
   .finallyWord, .forWord, .functionWord, .ifWord, .importWord, .inWord, .instanceOfWord,
   .letWord, .newWord, .nullWord, .returnWord, .superWord, .switchWord, .thisWord, .throwWord,
   .trueWord, .tryWord, .typeOfWord, .varWord, .voidWord, .whileWord, .withWord]

def spelling : Keyword → String
  | .breakWord => "break"
  | .caseWord => "case"
  | .catchWord => "catch"
  | .classWord => "class"
  | .constWord => "const"
  | .continueWord => "continue"
  | .debuggerWord => "debugger"
  | .defaultWord => "default"
  | .deleteWord => "delete"
  | .doWord => "do"
  | .elseWord => "else"
  | .exportWord => "export"
  | .extendsWord => "extends"
  | .falseWord => "false"
  | .finallyWord => "finally"
  | .forWord => "for"
  | .functionWord => "function"
  | .ifWord => "if"
  | .importWord => "import"
  | .inWord => "in"
  | .instanceOfWord => "instanceof"
  | .letWord => "let"
  | .newWord => "new"
  | .nullWord => "null"
  | .returnWord => "return"
  | .superWord => "super"
  | .switchWord => "switch"
  | .thisWord => "this"
  | .throwWord => "throw"
  | .trueWord => "true"
  | .tryWord => "try"
  | .typeOfWord => "typeof"
  | .varWord => "var"
  | .voidWord => "void"
  | .whileWord => "while"
  | .withWord => "with"

def ofSpelling? (word : String) : Option Keyword :=
  all.find? (·.spelling == word)

def name : Keyword → String
  | .instanceOfWord => "InstanceOfKeyword"
  | .typeOfWord => "TypeOfKeyword"
  | k => k.spelling.capitalize ++ "Keyword"

end Keyword

/-- Punctuation and operators that do not assign. -/
inductive Punct where
  | openBrace | closeBrace | openParen | closeParen | openBracket | closeBracket | dot
  | dotDotDot | semicolon | comma | questionDot | lessThan | greaterThan | lessThanEquals
  | greaterThanEquals | equalsEquals | exclamationEquals | equalsEqualsEquals
  | exclamationEqualsEquals | arrow | plus | minus | asterisk | asteriskAsterisk | slash
  | percent | plusPlus | minusMinus | lessThanLessThan | greaterThanGreaterThan
  | greaterThanGreaterThanGreaterThan | ampersand | bar | caret | exclamation | tilde
  | ampersandAmpersand | barBar | question | questionQuestion | colon | atSign | hashSign
deriving DecidableEq, Repr

namespace Punct

def all : List Punct :=
  [.openBrace, .closeBrace, .openParen, .closeParen, .openBracket, .closeBracket, .dot,
   .dotDotDot, .semicolon, .comma, .questionDot, .lessThan, .greaterThan, .lessThanEquals,
   .greaterThanEquals, .equalsEquals, .exclamationEquals, .equalsEqualsEquals,
   .exclamationEqualsEquals, .arrow, .plus, .minus, .asterisk, .asteriskAsterisk, .slash,
   .percent, .plusPlus, .minusMinus, .lessThanLessThan, .greaterThanGreaterThan,
   .greaterThanGreaterThanGreaterThan, .ampersand, .bar, .caret, .exclamation, .tilde,
   .ampersandAmpersand, .barBar, .question, .questionQuestion, .colon, .atSign, .hashSign]

def spelling : Punct → String
  | .openBrace => "\x7b"
  | .closeBrace => "\x7d"
  | .openParen => "("
  | .closeParen => ")"
  | .openBracket => "["
  | .closeBracket => "]"
  | .dot => "."
  | .dotDotDot => "..."
  | .semicolon => ";"
  | .comma => ","
  | .questionDot => "?."
  | .lessThan => "<"
  | .greaterThan => ">"
  | .lessThanEquals => "<="
  | .greaterThanEquals => ">="
  | .equalsEquals => "=="
  | .exclamationEquals => "!="
  | .equalsEqualsEquals => "==="
  | .exclamationEqualsEquals => "!=="
  | .arrow => "=>"
  | .plus => "+"
  | .minus => "-"
  | .asterisk => "*"
  | .asteriskAsterisk => "**"
  | .slash => "/"
  | .percent => "%"
  | .plusPlus => "++"
  | .minusMinus => "--"
  | .lessThanLessThan => "<<"
  | .greaterThanGreaterThan => ">>"
  | .greaterThanGreaterThanGreaterThan => ">>>"
  | .ampersand => "&"
  | .bar => "|"
  | .caret => "^"
  | .exclamation => "!"
  | .tilde => "~"
  | .ampersandAmpersand => "&&"
  | .barBar => "||"
  | .question => "?"
  | .questionQuestion => "??"
  | .colon => ":"
  | .atSign => "@"
  | .hashSign => "#"

def name : Punct → String
  | .openBrace => "OpenBraceToken"
  | .closeBrace => "CloseBraceToken"
  | .openParen => "OpenParenToken"
  | .closeParen => "CloseParenToken"
  | .openBracket => "OpenBracketToken"
  | .closeBracket => "CloseBracketToken"
  | .dot => "DotToken"
  | .dotDotDot => "DotDotDotToken"
  | .semicolon => "SemicolonToken"
  | .comma => "CommaToken"
  | .questionDot => "QuestionDotToken"
  | .lessThan => "LessThanToken"
  | .greaterThan => "GreaterThanToken"
  | .lessThanEquals => "LessThanEqualsToken"
  | .greaterThanEquals => "GreaterThanEqualsToken"
  | .equalsEquals => "EqualsEqualsToken"
  | .exclamationEquals => "ExclamationEqualsToken"
  | .equalsEqualsEquals => "EqualsEqualsEqualsToken"
  | .exclamationEqualsEquals => "ExclamationEqualsEqualsToken"
  | .arrow => "EqualsGreaterThanToken"
  | .plus => "PlusToken"
  | .minus => "MinusToken"
  | .asterisk => "AsteriskToken"
  | .asteriskAsterisk => "AsteriskAsteriskToken"
  | .slash => "SlashToken"
  | .percent => "PercentToken"
  | .plusPlus => "PlusPlusToken"
  | .minusMinus => "MinusMinusToken"
  | .lessThanLessThan => "LessThanLessThanToken"
  | .greaterThanGreaterThan => "GreaterThanGreaterThanToken"
  | .greaterThanGreaterThanGreaterThan => "GreaterThanGreaterThanGreaterThanToken"
  | .ampersand => "AmpersandToken"
  | .bar => "BarToken"
  | .caret => "CaretToken"
  | .exclamation => "ExclamationToken"
  | .tilde => "TildeToken"
  | .ampersandAmpersand => "AmpersandAmpersandToken"
  | .barBar => "BarBarToken"
  | .question => "QuestionToken"
  | .questionQuestion => "QuestionQuestionToken"
  | .colon => "ColonToken"
  | .atSign => "AtToken"
  | .hashSign => "HashToken"

end Punct

inductive AssignOp where
  | equals | plusEquals | minusEquals | asteriskEquals | asteriskAsteriskEquals | slashEquals
  | percentEquals | lessThanLessThanEquals | greaterThanGreaterThanEquals
  | greaterThanGreaterThanGreaterThanEquals | ampersandEquals | barEquals | caretEquals
  | ampersandAmpersandEquals | barBarEquals | questionQuestionEquals
deriving DecidableEq, Repr

namespace AssignOp

def all : List AssignOp :=
  [.equals, .plusEquals, .minusEquals, .asteriskEquals, .asteriskAsteriskEquals, .slashEquals,
   .percentEquals, .lessThanLessThanEquals, .greaterThanGreaterThanEquals,
   .greaterThanGreaterThanGreaterThanEquals, .ampersandEquals, .barEquals, .caretEquals,
   .ampersandAmpersandEquals, .barBarEquals, .questionQuestionEquals]

def spelling : AssignOp → String
  | .equals => "="
  | .plusEquals => "+="
  | .minusEquals => "-="
  | .asteriskEquals => "*="
  | .asteriskAsteriskEquals => "**="
  | .slashEquals => "/="
  | .percentEquals => "%="
  | .lessThanLessThanEquals => "<<="
  | .greaterThanGreaterThanEquals => ">>="
  | .greaterThanGreaterThanGreaterThanEquals => ">>>="
  | .ampersandEquals => "&="
  | .barEquals => "|="
  | .caretEquals => "^="
  | .ampersandAmpersandEquals => "&&="
  | .barBarEquals => "||="
  | .questionQuestionEquals => "??="

def name : AssignOp → String
  | .equals => "EqualsToken"
  | .plusEquals => "PlusEqualsToken"
  | .minusEquals => "MinusEqualsToken"
  | .asteriskEquals => "AsteriskEqualsToken"
  | .asteriskAsteriskEquals => "AsteriskAsteriskEqualsToken"
  | .slashEquals => "SlashEqualsToken"
  | .percentEquals => "PercentEqualsToken"
  | .lessThanLessThanEquals => "LessThanLessThanEqualsToken"
  | .greaterThanGreaterThanEquals => "GreaterThanGreaterThanEqualsToken"
  | .greaterThanGreaterThanGreaterThanEquals => "GreaterThanGreaterThanGreaterThanEqualsToken"
  | .ampersandEquals => "AmpersandEqualsToken"
  | .barEquals => "BarEqualsToken"
  | .caretEquals => "CaretEqualsToken"
  | .ampersandAmpersandEquals => "AmpersandAmpersandEqualsToken"
  | .barBarEquals => "BarBarEqualsToken"
  | .questionQuestionEquals => "QuestionQuestionEqualsToken"

end AssignOp

/-- What a token is. A plain template has no substitutions. -/
inductive TokenKind where
  | unknown
  | endOfFile
  | numeric
  | bigInt
  | string
  | regex
  | plainTemplate
  | template
  | identifier
  | privateIdentifier
  | punct (p : Punct)
  | assign (op : AssignOp)
  | keyword (k : Keyword)
deriving DecidableEq, Repr

namespace TokenKind

def isKeyword : TokenKind → Bool
  | keyword _ => true
  | _ => false

def isAssignment : TokenKind → Bool
  | assign _ => true
  | _ => false

/-- How a message calls a token of this kind. Operators that no message asks for share one word. -/
def label : TokenKind → String
  | keyword k => k.spelling
  | assign .equals => "="
  | identifier => "identifier"
  | string => "string literal"
  | endOfFile => "end of file"
  | punct p =>
    if p ∈ [.openBrace, .closeBrace, .openParen, .closeParen, .openBracket, .closeBracket, .dot,
        .dotDotDot, .semicolon, .comma, .questionDot, .lessThan, .greaterThan, .arrow, .colon,
        .question] then p.spelling
    else "token"
  | _ => "token"

def name : TokenKind → String
  | unknown => "Unknown"
  | endOfFile => "EndOfFileToken"
  | numeric => "NumericLiteral"
  | bigInt => "BigIntLiteral"
  | string => "StringLiteral"
  | regex => "RegularExpressionLiteral"
  | plainTemplate => "NoSubstitutionTemplateLiteral"
  | template => "TemplateLiteral"
  | identifier => "Identifier"
  | privateIdentifier => "PrivateIdentifier"
  | punct p => p.name
  | assign op => op.name
  | keyword k => k.name

/-- Every operator and bracket with its bytes, longer spellings first. -/
def punctuation : List (List UInt8 × TokenKind) :=
  let table := Punct.all.map (fun p => (p.spelling, punct p)) ++
    AssignOp.all.map (fun op => (op.spelling, assign op))
  [4, 3, 2, 1].flatMap fun n =>
    (table.filter (·.1.length == n)).map fun (w, kind) => (w.toUTF8.data.toList, kind)

end TokenKind

end PropContract
