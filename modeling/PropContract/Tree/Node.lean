import PropContract.Token.Kind

/-!
# Syntax nodes

A module's tree is a table of nodes that name their children by number. A child that the source
leaves out, or that could not be read, is absent.
-/

namespace PropContract

/-- The number of a node in its table. -/
abbrev NodeId := Nat

/-- A child, or nothing where it is missing. -/
abbrev Child := Option NodeId

structure Modifiers where
  exported : Bool := false
  isDefault : Bool := false
  isStatic : Bool := false
  isAsync : Bool := false
  isGenerator : Bool := false
deriving DecidableEq, Repr

/-- The modifiers as a set of bits. -/
def Modifiers.bits (m : Modifiers) : Nat :=
  m.exported.toNat + 2 * m.isDefault.toNat + 4 * m.isStatic.toNat + 8 * m.isAsync.toNat +
    16 * m.isGenerator.toNat

/-- The word that begins a variable statement. -/
inductive VariableWord where
  | varWord | letWord | constWord
deriving DecidableEq, Repr

/-- Literals that keep a text: the value of strings and plain templates, the source text of others. -/
inductive LiteralKind where
  | string | numeric | bigInt | regex | plainTemplate | template
deriving DecidableEq, Repr

/-- Words that are expressions by themselves. -/
inductive ConstantWord where
  | trueWord | falseWord | nullWord | thisWord | superWord
deriving DecidableEq, Repr

/-- What a node is, with its children. Parameters and bodies of functions are not represented; a
concise arrow function has its expression for a body. -/
inductive Form where
  | sourceFile (statements : List NodeId) (fileName : String)
  | identifier (name : String)
  | privateIdentifier (name : String)
  | literal (kind : LiteralKind) (text : String)
  | constant (word : ConstantWord)
  | objectLiteral (elements : List NodeId)
  | arrayLiteral (elements : List Child)
  | propertyAssignment (name : NodeId) (initializer : Child)
  | shorthandProperty (name : NodeId)
  | spreadAssignment (expression : Child)
  | spreadElement (expression : Child)
  | computedName (expression : Child)
  | omitted
  | propertyAccess (target name : Child) (optional : Bool)
  | elementAccess (target argument : Child) (optional : Bool)
  | call (callee : Child) (arguments : List Child) (optional : Bool)
  | new (callee : Child) (arguments : Option (List Child))
  | taggedTemplate (tag template : Child)
  | parenthesized (expression : Child)
  | binary (left : Child) (operator : TokenKind) (right : Child)
  | conditional (condition whenTrue whenFalse : Child)
  | prefixUnary (operator : TokenKind) (operand : Child)
  | postfixUnary (operator : TokenKind) (operand : Child)
  | arrowFunction (body : Child)
  | functionExpression (name body : Child)
  | classExpression (name heritage : Child) (members : List NodeId)
  | markup
  | block
  | variableStatement (word : VariableWord) (declarations : List NodeId)
  | variableDeclaration (name initializer : Child)
  | objectPattern (elements : List NodeId)
  | arrayPattern (elements : List NodeId)
  | bindingElement (propertyName name initializer : Child) (rest : Bool)
  | functionDeclaration (name body : Child)
  | classDeclaration (name heritage : Child) (members : List NodeId)
  | propertyDeclaration (name : NodeId) (initializer : Child)
  | methodDeclaration (name body : Child)
  | importDeclaration (defaultName «namespace» : Child) (named : Option (List NodeId))
      (specifier : Child)
  | importSpecifier (propertyName name : Child)
  | exportDeclaration (clause : Option (List NodeId)) («namespace» specifier : Child)
  | exportSpecifier (propertyName name : Child)
  | exportAssignment (expression : Child)
  | expressionStatement (expression : Child)
  | emptyStatement
  | skippedStatement
deriving DecidableEq, Repr

namespace Form

/-- The places for children, in source order. -/
def children : Form → List Child
  | sourceFile statements _ => statements.map some
  | identifier _ | privateIdentifier _ | literal _ _ | constant _ => []
  | objectLiteral elements => elements.map some
  | arrayLiteral elements => elements
  | propertyAssignment name initializer => [some name, initializer]
  | shorthandProperty name => [some name]
  | spreadAssignment e | spreadElement e | computedName e => [e]
  | omitted => []
  | propertyAccess target name _ => [target, name]
  | elementAccess target argument _ => [target, argument]
  | call callee arguments _ => callee :: arguments
  | new callee arguments => callee :: arguments.getD []
  | taggedTemplate tag template => [tag, template]
  | parenthesized e => [e]
  | binary left _ right => [left, right]
  | conditional condition whenTrue whenFalse => [condition, whenTrue, whenFalse]
  | prefixUnary _ operand | postfixUnary _ operand => [operand]
  | arrowFunction body => [none, body]
  | functionExpression name body | functionDeclaration name body => [name, body]
  | classExpression name heritage members | classDeclaration name heritage members =>
    name :: heritage :: members.map some
  | markup | block => []
  | variableStatement _ declarations => declarations.map some
  | variableDeclaration name initializer => [name, initializer]
  | objectPattern elements | arrayPattern elements => elements.map some
  | bindingElement propertyName name initializer _ => [propertyName, name, initializer]
  | propertyDeclaration name initializer => [some name, initializer]
  | methodDeclaration name body => [name, body]
  | importDeclaration defaultName ns named specifier =>
    [defaultName, ns] ++ (named.getD []).map some ++ [specifier]
  | importSpecifier propertyName name | exportSpecifier propertyName name => [propertyName, name]
  | exportDeclaration clause ns specifier => (clause.getD []).map some ++ [ns, specifier]
  | exportAssignment e | expressionStatement e => [e]
  | emptyStatement | skippedStatement => []

def name : Form → String
  | sourceFile .. => "SourceFile"
  | identifier _ => "Identifier"
  | privateIdentifier _ => "PrivateIdentifier"
  | literal .string _ => "StringLiteral"
  | literal .numeric _ => "NumericLiteral"
  | literal .bigInt _ => "BigIntLiteral"
  | literal .regex _ => "RegularExpressionLiteral"
  | literal .plainTemplate _ => "NoSubstitutionTemplateLiteral"
  | literal .template _ => "TemplateExpression"
  | constant .trueWord => "TrueKeyword"
  | constant .falseWord => "FalseKeyword"
  | constant .nullWord => "NullKeyword"
  | constant .thisWord => "ThisKeyword"
  | constant .superWord => "SuperKeyword"
  | objectLiteral _ => "ObjectLiteralExpression"
  | arrayLiteral _ => "ArrayLiteralExpression"
  | propertyAssignment .. => "PropertyAssignment"
  | shorthandProperty _ => "ShorthandPropertyAssignment"
  | spreadAssignment _ => "SpreadAssignment"
  | spreadElement _ => "SpreadElement"
  | computedName _ => "ComputedPropertyName"
  | omitted => "OmittedExpression"
  | propertyAccess .. => "PropertyAccessExpression"
  | elementAccess .. => "ElementAccessExpression"
  | call .. => "CallExpression"
  | new .. => "NewExpression"
  | taggedTemplate .. => "TaggedTemplateExpression"
  | parenthesized _ => "ParenthesizedExpression"
  | binary .. => "BinaryExpression"
  | conditional .. => "ConditionalExpression"
  | prefixUnary .. => "PrefixUnaryExpression"
  | postfixUnary .. => "PostfixUnaryExpression"
  | arrowFunction _ => "ArrowFunction"
  | functionExpression .. => "FunctionExpression"
  | classExpression .. => "ClassExpression"
  | markup => "JsxElement"
  | block => "Block"
  | variableStatement .. => "VariableStatement"
  | variableDeclaration .. => "VariableDeclaration"
  | objectPattern _ => "ObjectBindingPattern"
  | arrayPattern _ => "ArrayBindingPattern"
  | bindingElement .. => "BindingElement"
  | functionDeclaration .. => "FunctionDeclaration"
  | classDeclaration .. => "ClassDeclaration"
  | propertyDeclaration .. => "PropertyDeclaration"
  | methodDeclaration .. => "MethodDeclaration"
  | importDeclaration .. => "ImportDeclaration"
  | importSpecifier .. => "ImportSpecifier"
  | exportDeclaration .. => "ExportDeclaration"
  | exportSpecifier .. => "ExportSpecifier"
  | exportAssignment _ => "ExportAssignment"
  | expressionStatement _ => "ExpressionStatement"
  | emptyStatement => "EmptyStatement"
  | skippedStatement => "SkippedStatement"

end Form

/-- A node: its span without the blanks before it, its parent once it has one, and what it is. -/
structure Node where
  start : Nat
  stop : Nat
  parent : Option NodeId := none
  modifiers : Modifiers := {}
  form : Form
deriving DecidableEq, Repr

namespace Node

def width (n : Node) : Nat := n.stop - n.start

/-- How a variable statement declares, as bits: 1 for `let`, 2 for `const`. -/
def flags (n : Node) : Nat :=
  match n.form with
  | .variableStatement .letWord _ => 1
  | .variableStatement .constWord _ => 2
  | _ => 0

def isConst (n : Node) : Bool :=
  match n.form with
  | .variableStatement .constWord _ => true
  | _ => false

def isIdentifier (n : Node) : Bool := n.form matches .identifier _

def isStringLiteral (n : Node) : Bool :=
  n.form matches .literal .string _ | .literal .plainTemplate _

def isObjectLiteral (n : Node) : Bool := n.form matches .objectLiteral _

def isArrayLiteral (n : Node) : Bool := n.form matches .arrayLiteral _

end Node

end PropContract
