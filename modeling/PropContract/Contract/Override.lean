import PropContract.Contract.Violation
import PropContract.Contract.Vocabulary
import PropContract.Entries
import PropContract.Limits

/-!
# Overrides

A component may override the types of its properties, or ask to be left out. Overrides are checked
whether or not they match a property.
-/

namespace PropContract

inductive Override where
  /-- Leaves the property out -/
  | ignore
  | named (type : NumericType) (nullable : Bool)
  | component (name : String)
  | arrayOf (element : Override)
  | object (entries : List (String × Override))
  | invalid
deriving Repr

inductive ComponentOverrides where
  | ignored
  /-- A string that is not the word for ignoring -/
  | badIgnore (node : NodeId) (value : String)
  /-- Overrides by property; without an object there are none -/
  | properties (object : Child) (entries : Entries Child)
deriving DecidableEq, Repr

namespace Arena

/-- The value of an override with a written name. A name alone stands for itself, a method for its
node. -/
def overrideEntry? (a : Arena) (element : Child) : Option (String × Child) := do
  let key ← a.propertyNameText (a.memberName element)
  match a.form? element with
  | some (.propertyAssignment _ value) => return (key, value)
  | some (.shorthandProperty name) => return (key, some name)
  | some (.methodDeclaration ..) => return (key, element)
  | _ => none

def overrideEntries (a : Arena) (object : Child) : Entries Child :=
  .ofList ((a.literalElements object).filterMap a.overrideEntry?)

def componentOverrides (a : Arena) (value : Child) : ComponentOverrides :=
  match a.unparenthesized value with
  | none => .properties none []
  | some id =>
    match a.stringText id with
    | some text => if text = ignoreWord then .ignored else .badIgnore id text
    | none =>
      if a.isObjectLiteral id then .properties (some id) (a.overrideEntries id)
      else .properties none []

/-! ## Validation -/

/-- The faults in the elements of an override object, whose values `value` looks at. -/
def elementFindings (a : Arena) (value : Child → List Finding) (object : Child) : List Finding :=
  (a.literalElements object).flatMap fun element =>
    match a.form? element with
    | some (.propertyAssignment _ v) => value v
    | some (.shorthandProperty _) => []
    | _ => [{ violation := .badMeta, node := element }]

/-- The faults in an override of at most `n` levels. A value that is missing has been reported as a
syntax error. -/
def valueFindings (a : Arena) : (n : Nat) → Child → List Finding
  | 0, v =>
    let v := a.unparenthesized v
    if (a.form? v).isSome then [{ violation := .badMeta, node := v }] else []
  | n + 1, v =>
    let v := a.unparenthesized v
    match a.form? v with
    | none => []
    | some (.objectLiteral _) => a.elementFindings (a.valueFindings n) v
    | some (.literal .string text)
    | some (.literal .plainTemplate text) =>
      if overrideWords.contains text then []
      else [{ violation := .badTypeName, node := v, args := [text, overrideWordList] }]
    | some (.arrayLiteral elements) =>
      match elements with
      | [] => []
      | first :: _ => a.valueFindings n first
    | some (.identifier _) => []
    | some _ => [{ violation := .badMeta, node := v }]

def overrideFindings (a : Arena) (object : Child) : List Finding :=
  a.elementFindings (a.valueFindings maxMetaDepth) object

end Arena

namespace Override

/-! ## Reading -/

def ofValueIn (a : Arena) : (n : Nat) → Child → Override
  | 0, _ => .invalid
  | n + 1, v =>
    let v := a.unparenthesized v
    match a.form? v with
    | some (.literal .string text)
    | some (.literal .plainTemplate text) =>
      if text = ignoreWord then .ignore
      else
        match NumericType.parse? text with
        | some (type, nullable) => .named type nullable
        | none => .invalid
    | some (.identifier name) => .component name
    | some (.arrayLiteral elements) =>
      match elements with
      | [] => .arrayOf .invalid
      | first :: _ => .arrayOf (ofValueIn a n first)
    | some (.objectLiteral _) =>
      .object ((a.overrideEntries v).map fun (key, entry) => (key, ofValueIn a n entry))
    | _ => .invalid

def ofValue (a : Arena) (v : Child) : Override :=
  ofValueIn a (maxMetaDepth + 1) v

end Override

end PropContract
