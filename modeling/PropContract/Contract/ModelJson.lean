import PropContract.Contract.Model
import PropContract.Json.Value

/-!
# Models as JSON

A type is an object with its kind and, where there is more to say, a value.
-/

namespace PropContract

def taggedJson (kind : String) (value : Json) : Json :=
  .object [("kind", .string kind), ("value", value)]

def EnumValue.toJson : EnumValue → Json
  | .null => .null
  | .bool value => .bool value
  | .number value => .double value
  | .string value => .string value

def OverrideType.toJson : OverrideType → Json
  | .named type nullable =>
    taggedJson "named" (.object [("name", .string type.name), ("nullable", .bool nullable)])
  | .component name => taggedJson "component" (.string name)
  | .arrayOf element => taggedJson "arrayOf" element.toJson
  | .object entries => taggedJson "object" (.object (entriesJson entries))
  | .unknown => .object [("kind", .string "unknown")]
where
  entriesJson : List (String × OverrideType) → List (String × Json)
    | [] => []
    | (key, type) :: rest => (key, type.toJson) :: entriesJson rest

def PropertyType.toJson : PropertyType → Json
  | .primitive name => taggedJson "primitive" (.string name)
  | .enum values => taggedJson "enum" (.array (values.map EnumValue.toJson))
  | .arrayOf element => taggedJson "arrayOf" element.toJson
  | .shape properties => taggedJson "shape" (.object (propertiesJson properties))
  | .shapeOf component => taggedJson "shapeOf" (.string component)
  | .override type => taggedJson "override" type.toJson
where
  propertiesJson : List (String × TypedProperty PropertyType) → List (String × Json)
    | [] => []
    | (key, p) :: rest =>
      (key, .object [("type", p.type.toJson), ("required", .bool p.required)]) ::
        propertiesJson rest

def ComponentModel.toJson (m : ComponentModel) : Json :=
  .object [("name", .string m.name),
    ("properties", .object (PropertyType.toJson.propertiesJson m.properties))]

end PropContract
