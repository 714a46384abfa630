/-!
# Vocabulary

The names with a meaning in a contract: static fields, validators and override types.
-/

namespace PropContract

/-- The override that leaves out a property, or a whole component. -/
def ignoreWord : String := "ignore"

def requiredWord : String := "isRequired"

structure FieldNames where
  propTypes : String := "propTypes"
  overrides : String := "viewModelMeta"
deriving DecidableEq, Repr

inductive NumericType where
  | int | float | double
deriving DecidableEq, Repr

namespace NumericType

def all : List NumericType := [.int, .float, .double]

def name : NumericType → String
  | int => "int"
  | float => "float"
  | double => "double"

/-- A numeric type with or without a question mark, which allows null. -/
def parse? (text : String) : Option (NumericType × Bool) :=
  match text.toList.getLast? with
  | some '?' =>
    (all.find? fun t => text == t.name ++ "?").map (·, true)
  | _ => (all.find? fun t => text == t.name).map (·, false)

end NumericType

/-- The words that an override may be, in the order of the message that lists them. -/
def overrideWords : List String :=
  ["int", "int?", "float", "float?", "double", "double?", ignoreWord]

def overrideWordList : String :=
  ", ".intercalate (overrideWords.map fun w => "'" ++ w ++ "'")

/-- The validators with a type of their own. -/
def primitiveNames : List String :=
  ["any", "bool", "element", "elementType", "func", "node", "number", "string", "symbol"]

end PropContract
