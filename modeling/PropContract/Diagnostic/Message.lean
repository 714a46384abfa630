/-!
# Messages

Every message a module can get, with its code and its wording, and how placeholders are filled in.
-/

namespace PropContract

inductive Category where
  | warning | error | suggestion | message
deriving DecidableEq, Repr

def Category.name : Category → String
  | warning => "Warning"
  | error => "Error"
  | suggestion => "Suggestion"
  | message => "Message"

/-- The messages. Lexical and syntax errors come first, then exports, property types and overrides. -/
inductive Message where
  | invalidCharacter | unterminatedString | unterminatedTemplate | unterminatedRegex
  | tokenExpected | identifierExpected | expressionExpected | statementExpected
  | propertyExpected | unterminatedBlock | nestingTooDeep | unterminatedComment
  | noExport | tooManyExports | propNameCollision | badIgnore
  | object | array | oneOfType | illegalCall | illegalIdentifier | illegalReference
  | importedObject | importedArray | missingReference
  | badTypeName | badMeta
deriving DecidableEq, Repr

namespace Message

def all : List Message :=
  [.invalidCharacter, .unterminatedString, .unterminatedTemplate, .unterminatedRegex,
   .tokenExpected, .identifierExpected, .expressionExpected, .statementExpected,
   .propertyExpected, .unterminatedBlock, .nestingTooDeep, .unterminatedComment,
   .noExport, .tooManyExports, .propNameCollision, .badIgnore,
   .object, .array, .oneOfType, .illegalCall, .illegalIdentifier, .illegalReference,
   .importedObject, .importedArray, .missingReference, .badTypeName, .badMeta]

def code : Message → Nat
  | invalidCharacter => 1001
  | unterminatedString => 1002
  | unterminatedTemplate => 1003
  | unterminatedRegex => 1004
  | tokenExpected => 1005
  | identifierExpected => 1006
  | expressionExpected => 1007
  | statementExpected => 1008
  | propertyExpected => 1009
  | unterminatedBlock => 1010
  | nestingTooDeep => 1011
  | unterminatedComment => 1012
  | noExport => 9001
  | tooManyExports => 9002
  | propNameCollision => 9003
  | badIgnore => 9004
  | object => 9101
  | array => 9102
  | oneOfType => 9103
  | illegalCall => 9104
  | illegalIdentifier => 9105
  | illegalReference => 9106
  | importedObject => 9107
  | importedArray => 9108
  | missingReference => 9109
  | badTypeName => 9201
  | badMeta => 9202

/-- The wording, with `{i}` where argument `i` goes. -/
def template : Message → String
  | invalidCharacter => "Invalid character."
  | unterminatedString => "Unterminated string literal."
  | unterminatedTemplate => "Unterminated template literal."
  | unterminatedRegex => "Unterminated regular expression literal."
  | tokenExpected => "'\x7b0\x7d' expected."
  | identifierExpected => "Identifier expected."
  | expressionExpected => "Expression expected."
  | statementExpected => "Declaration or statement expected."
  | propertyExpected => "Property assignment expected."
  | unterminatedBlock => "'\x7b0\x7d' was never closed."
  | nestingTooDeep => "Expression nesting is too deep."
  | unterminatedComment => "'*/' expected."
  | noExport =>
    "No exported component found. The module must export exactly one component."
  | tooManyExports => "Too many exports. The module must export exactly one component."
  | propNameCollision =>
    "Property '\x7b0\x7d' has the same name as the component '\x7b1\x7d'. Rename the property."
  | badIgnore =>
    "Invalid value '\x7b0\x7d' for viewModelMeta. Use 'ignore' to skip the whole component."
  | object =>
    "'PropTypes.object' has no typed equivalent. Use 'PropTypes.shape' or add a viewModelMeta override."
  | array =>
    "'PropTypes.array' has no typed equivalent. Use 'PropTypes.arrayOf' or add a viewModelMeta override."
  | oneOfType =>
    "'PropTypes.oneOfType' has no typed equivalent. Add a viewModelMeta override."
  | illegalCall => "Unsupported function call in propTypes. Add a viewModelMeta override."
  | illegalIdentifier =>
    "Unsupported value in propTypes. Use a PropTypes validator or add a viewModelMeta override."
  | illegalReference =>
    "Unsupported reference in propTypes. Only references to another component's propTypes are allowed."
  | importedObject => "Imported objects cannot be analyzed. Declare the object in this module."
  | importedArray => "Imported arrays cannot be analyzed. Declare the array in this module."
  | missingReference =>
    "Reference does not resolve to an object or array declared in this module."
  | badTypeName =>
    "'\x7b0\x7d' is not a valid viewModelMeta type. Expected one of: \x7b1\x7d."
  | badMeta =>
    "Invalid viewModelMeta value. Use a type name string, a component, an array or an object."

def category (_ : Message) : Category := .error

def ofCode? (code : Nat) : Option Message :=
  all.find? (·.code == code)

/-- Replaces `target`, which is not empty, from left to right, after dropping `skip` characters. -/
def replaceFrom (target new : List Char) : (skip : Nat) → List Char → List Char
  | _, [] => []
  | k + 1, _ :: cs => replaceFrom target new k cs
  | 0, c :: cs =>
    if target.isPrefixOf (c :: cs) then new ++ replaceFrom target new (target.length - 1) cs
    else c :: replaceFrom target new 0 cs

def placeholder (i : Nat) : List Char :=
  '{' :: (toString i).toList ++ ['}']

/-- Fills in the arguments one after the other, so a later one also replaces its placeholder in the
text of an earlier one. -/
def fill (template : String) (args : List String) : String :=
  String.ofList <| args.zipIdx.foldl (fun text (arg, i) =>
    replaceFrom (placeholder i) arg.toList 0 text) template.toList

def format (m : Message) (args : List String) : String :=
  fill m.template args

end Message

structure Diagnostic where
  file : String
  start : Nat
  length : Nat
  text : String
  category : Category
  code : Nat
deriving DecidableEq, Repr

namespace Diagnostic

def ofMessage (file : String) (start length : Nat) (m : Message) (args : List String) : Diagnostic :=
  { file, start, length, text := m.format args, category := m.category, code := m.code }

end Diagnostic

end PropContract
