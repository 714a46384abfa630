import PropContract.Contract.Vocabulary
import PropContract.Entries

/-!
# Types of properties

What a clean contract says: a type for every property, and whether the property is required.
-/

namespace PropContract

inductive EnumValue where
  | null
  | bool (value : Bool)
  | number (value : Float)
  | string (value : String)
deriving DecidableEq, Repr

inductive OverrideType where
  | named (type : NumericType) (nullable : Bool)
  | component (name : String)
  | arrayOf (element : OverrideType)
  | object (entries : List (String × OverrideType))
  /-- The element type of an array without elements. -/
  | unknown
deriving Repr

structure TypedProperty (τ : Type) where
  type : τ
  required : Bool
deriving DecidableEq, Repr

inductive PropertyType where
  /-- A validator with a type of its own, such as `string` -/
  | primitive (name : String)
  | enum (values : List EnumValue)
  | arrayOf (element : PropertyType)
  | shape (properties : List (String × TypedProperty PropertyType))
  /-- The properties of another component -/
  | shapeOf (component : String)
  | override (type : OverrideType)
deriving Repr

namespace PropertyType

/-- The type inside `depth` levels of arrays. -/
def inArrays (type : PropertyType) : (depth : Nat) → PropertyType
  | 0 => type
  | depth + 1 => .arrayOf (type.inArrays depth)

end PropertyType

abbrev Property := TypedProperty PropertyType

structure ComponentModel where
  name : String
  properties : Entries Property
deriving Repr

end PropContract
