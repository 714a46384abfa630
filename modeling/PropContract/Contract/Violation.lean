import PropContract.Diagnostic.Message
import PropContract.Tree.Arena

/-!
# Violations

What can be wrong with a contract, and where.
-/

namespace PropContract

inductive Violation where
  | noExport | tooManyExports | propNameCollision | badIgnore
  | object | array | oneOfType | illegalCall | illegalIdentifier | illegalReference
  | importedObject | importedArray | missingReference
  | badTypeName | badMeta
deriving DecidableEq, Repr

namespace Violation

def message : Violation → Message
  | noExport => .noExport
  | tooManyExports => .tooManyExports
  | propNameCollision => .propNameCollision
  | badIgnore => .badIgnore
  | object => .object
  | array => .array
  | oneOfType => .oneOfType
  | illegalCall => .illegalCall
  | illegalIdentifier => .illegalIdentifier
  | illegalReference => .illegalReference
  | importedObject => .importedObject
  | importedArray => .importedArray
  | missingReference => .missingReference
  | badTypeName => .badTypeName
  | badMeta => .badMeta

def name : Violation → String
  | noExport => "NoExport"
  | tooManyExports => "TooManyExports"
  | propNameCollision => "PropNameCollision"
  | badIgnore => "BadIgnore"
  | object => "Object"
  | array => "Array"
  | oneOfType => "OneOfType"
  | illegalCall => "IllegalFunctionCall"
  | illegalIdentifier => "IllegalIdentifier"
  | illegalReference => "IllegalReference"
  | importedObject => "ImportedObjectReference"
  | importedArray => "ImportedArrayReference"
  | missingReference => "MissingObjectReference"
  | badTypeName => "BadStringLiteral"
  | badMeta => "BadMeta"

end Violation

structure Finding where
  violation : Violation
  node : Child
  args : List String := []
deriving DecidableEq, Repr

namespace Finding

/-- The message at the span of the node; a node that is missing has no extent. -/
def toDiagnostic (f : Finding) (a : Arena) (file : String) : Diagnostic :=
  let (start, length) := match f.node.bind a.get? with
    | some n => (n.start, n.width)
    | none => (0, 0)
  .ofMessage file start length f.violation.message f.args

end Finding

end PropContract
