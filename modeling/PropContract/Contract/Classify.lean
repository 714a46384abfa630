import PropContract.Contract.Model
import PropContract.Contract.Violation
import PropContract.Limits
import PropContract.Scope.Basic
import PropContract.Text.Numeral

/-!
# Declared types

What the validators of a props object say. Every property with a written name gets a type, a nested
shape, or the reason why it has no type.
-/

namespace PropContract

structure DeclaredProperty (ε : Type) where
  node : NodeId
  required : Bool
  entry : ε
deriving DecidableEq, Repr

inductive Classified where
  | valid (type : PropertyType)
  | invalid (violation : Violation)
  /-- A shape inside so many levels of arrays -/
  | nested (properties : List (String × DeclaredProperty Classified)) (arrays : Nat)
deriving Repr

abbrev ClassifiedTree := Entries (DeclaredProperty Classified)

structure Expansion where
  /-- Objects that a shape refers to and that are being classified -/
  active : List NodeId := []
  /-- Those of them that refer to themselves -/
  cyclic : List NodeId := []
  /-- How many shapes have been expanded so far -/
  expanded : Nat := 0
  /-- Whether a shape was past a limit -/
  limited : Bool := false
deriving DecidableEq, Repr

abbrev Classifier := StateM Expansion

/-- How the objects of shapes are classified: those that are written in place, and those that a name
refers to. -/
structure ShapeReader where
  inPlace : NodeId → Classifier Classified
  named : NodeId → Classifier Classified

def firstArgument (arguments : List Child) : Child :=
  arguments.head?.join

namespace Arena

/-! ## Values of enumerations -/

/-- The value of a literal inside at most `n` signs; computed values have none. -/
def literalValueIn (a : Arena) : (n : Nat) → Child → Option EnumValue
  | 0, _ => none
  | n + 1, e =>
    match a.form? (a.unparenthesized e) with
    | some (.literal .string text)
    | some (.literal .plainTemplate text) => some (.string text)
    | some (.literal .numeric text) => (Text.Numeral.value? text).map .number
    | some (.prefixUnary (.punct .minus) operand) =>
      match a.literalValueIn n operand with
      | some (.number x) => some (.number (-x))
      | _ => none
    | some (.constant .trueWord) => some (.bool true)
    | some (.constant .falseWord) => some (.bool false)
    | some (.constant .nullWord) => some .null
    | _ => none

def literalValue (a : Arena) (e : Child) : Option EnumValue :=
  a.literalValueIn (a.size + 1) e

def arrayValues (a : Arena) (array : NodeId) : List EnumValue :=
  (a.literalElements (some array)).filterMap a.literalValue

def objectKeys (a : Arena) (object : NodeId) : List EnumValue :=
  (a.literalElements (some object)).filterMap fun element =>
    (a.propertyNameText (a.memberName element)).map .string

def objectValues (a : Arena) (object : NodeId) : List EnumValue :=
  (a.literalElements (some object)).filterMap fun element =>
    match a.form? element with
    | some (.propertyAssignment _ value) => a.literalValue value
    | _ => none

/-! ## Required properties -/

/-- Strips at most `n` required marks and the parentheses around them. -/
def stripRequiredIn (a : Arena) : (n : Nat) → Child → (required : Bool) → Child × Bool
  | 0, e, required => (a.unparenthesized e, required)
  | n + 1, e, required =>
    let e := a.unparenthesized e
    match a.form? e with
    | some (.propertyAccess target name _) =>
      if a.identifierText name = some requiredWord then a.stripRequiredIn n target true
      else (e, required)
    | _ => (e, required)

def stripRequired (a : Arena) (e : Child) : Child × Bool :=
  a.stripRequiredIn (a.size + 1) e false

end Arena

namespace Classified

section

variable (a : Arena) (r : Resolver)

/-- The validator that an expression names, as in `PropTypes.bool`. -/
def validatorName? (e : Child) : Option String :=
  match a.accessChain e with
  | some [ns, name] => if r.isValidatorNamespace ns then some name else none
  | _ => none

def ofMember (e : Child) : Classified :=
  match validatorName? a r e with
  | some name =>
    if primitiveNames.contains name then .valid (.primitive name)
    else if name = "object" then .invalid .object
    else if name = "array" then .invalid .array
    else .invalid .illegalReference
  | none => .invalid .illegalReference

def ofObjectEnum (callee : Child) (arguments : List Child) : Classified :=
  let values? := match a.accessChain callee with
    | some ["Object", "keys"] => some a.objectKeys
    | some ["Object", "values"] => some a.objectValues
    | _ => none
  match values? with
  | none => .invalid .illegalCall
  | some values =>
    match a.unparenthesized (firstArgument arguments) with
    | none => .invalid .missingReference
    | some id =>
      match a.form? id with
      | some (.objectLiteral _) => .valid (.enum (values id))
      | some (.identifier name) =>
        match r.resolve name with
        | .objectLiteral object => .valid (.enum (values object))
        | .imported _ => .invalid .importedObject
        | .arrayLiteral _ => .invalid .illegalReference
        | .unresolved => .invalid .missingReference
      | _ => .invalid .missingReference

/-- `oneOf`, whose values must be known. -/
def ofOneOf (argument : Child) : Classified :=
  match a.unparenthesized argument with
  | none => .invalid .missingReference
  | some id =>
    match a.form? id with
    | none => .invalid .missingReference
    | some (.arrayLiteral _) => .valid (.enum (a.arrayValues id))
    | some (.identifier name) =>
      match r.resolve name with
      | .arrayLiteral array => .valid (.enum (a.arrayValues array))
      | .imported _ => .invalid .importedArray
      | .objectLiteral _ => .invalid .illegalReference
      | .unresolved => .invalid .missingReference
    | some (.call callee arguments _) => ofObjectEnum a r callee arguments
    | some (.propertyAccess ..)
    | some (.elementAccess ..) => .invalid .illegalReference
    | some _ => .invalid .illegalCall

def inArray : Classified → Classified
  | .valid type => .valid (.arrayOf type)
  | .nested properties arrays => .nested properties (arrays + 1)
  | .invalid v => .invalid v

/-- A shape whose object has a name. An object that reaches itself through its own shapes has no
finite type: then the property that first refers to it is at fault, and nothing inside it. -/
def ofReference (shape : NodeId → Classifier Classified) (object : NodeId) :
    Classifier Classified := do
  if (← get).active.contains object then
    modify fun s => { s with cyclic := s.cyclic.insert object }
    return .invalid .illegalReference
  else
    modify fun s => { s with active := object :: s.active }
    let result ← shape object
    modify fun s => { s with active := s.active.erase object }
    if (← get).cyclic.contains object then
      modify fun s => { s with cyclic := s.cyclic.erase object }
      return .invalid .illegalReference
    else
      return result

/-- Reads all objects of shapes with `shape`, those with names under watch for cycles. -/
def watching (shape : NodeId → Classifier Classified) : ShapeReader where
  inPlace := shape
  named := ofReference shape

variable (field : String) (reader : ShapeReader)

/-- `shape` or `exact`. -/
def ofShape (argument : Child) : Classifier Classified :=
  match a.unparenthesized argument with
  | none => return .valid (.shape [])
  | some id =>
    match a.form? id with
    | none => return .valid (.shape [])
    | some (.objectLiteral _) => reader.inPlace id
    | some (.propertyAccess ..) =>
      match a.accessChain (some id) with
      | some [component, name] =>
        if name = field then return .valid (.shapeOf component)
        else return .invalid .illegalReference
      | _ => return .invalid .illegalReference
    | some (.elementAccess ..) => return .invalid .illegalReference
    | some (.identifier name) =>
      match r.resolve name with
      | .objectLiteral object => reader.named object
      | .imported _ => return .invalid .importedObject
      | .arrayLiteral _ => return .invalid .illegalReference
      | .unresolved => return .invalid .missingReference
    | some _ => return .invalid .illegalCall

/-- `arrayOf`; a required mark inside it means nothing. -/
def ofArrayOf (value : Child → Classifier (Classified × Bool)) (argument : Child) :
    Classifier Classified := do
  if argument.isNone then return .invalid .illegalCall
  else
    let (element, _) ← value argument
    return element.inArray

def ofCall (value : Child → Classifier (Classified × Bool)) (callee : Child)
    (arguments : List Child) : Classifier Classified :=
  let argument := firstArgument arguments
  match validatorName? a r callee with
  | some "oneOfType" => return .invalid .oneOfType
  | some "arrayOf" => ofArrayOf value argument
  | some "oneOf" => return ofOneOf a r argument
  | some "shape" | some "exact" => ofShape a r field reader argument
  | _ => return .invalid .illegalCall

def ofLeaf (value : Child → Classifier (Classified × Bool)) (e : Child) : Classifier Classified :=
  match a.form? e with
  | some (.propertyAccess ..)
  | some (.elementAccess ..) => return ofMember a r e
  | some (.call callee arguments _) => ofCall a r field reader value callee arguments
  | some (.arrowFunction _)
  | some (.functionExpression ..) => return .invalid .illegalCall
  | _ => return .invalid .illegalIdentifier

/-- A validator inside at most `n` levels of arrays, and whether it is marked as required. -/
def ofValueIn : (n : Nat) → Child → Classifier (Classified × Bool)
  | 0, _ => return (.invalid .illegalIdentifier, false)
  | n + 1, e => do
    let (e, required) := a.stripRequired e
    return (← ofLeaf a r field reader (ofValueIn n) e, required)

def ofValue (e : Child) : Classifier (Classified × Bool) :=
  ofValueIn a r field reader (a.size + 1) e

/-- A property of a props object, if its name is written out. -/
def ofElement (element : NodeId) :
    Classifier (Option (String × DeclaredProperty Classified)) := do
  match a.propertyNameText (a.memberName element) with
  | none => return none
  | some key =>
    match a.form? element with
    | some (.propertyAssignment _ value) =>
      let (entry, required) ← ofValue a r field reader value
      return some (key, { node := element, required, entry })
    | some (.shorthandProperty _) =>
      return some (key,
        { node := element, required := false, entry := .invalid .illegalIdentifier })
    | some (.methodDeclaration ..) =>
      return some (key, { node := element, required := false, entry := .invalid .illegalCall })
    | _ => return none

def ofElements : List NodeId → Classifier (List (String × DeclaredProperty Classified))
  | [] => return []
  | element :: rest => do
    let property ← ofElement a r field reader element
    return property.toList ++ (← ofElements rest)

/-- The properties of an object. Of those with the same name, the last one counts. -/
def ofObject (object : NodeId) : Classifier ClassifiedTree := do
  match a.form? object with
  | some (.objectLiteral elements) => return Entries.ofList (← ofElements a r field reader elements)
  | _ => return []

end

section

variable (a : Arena) (r : Resolver) (field : String)

/-- What a shape past a limit counts as: an unsupported call. -/
def pastLimit : Classifier Classified := do
  modify fun s => { s with limited := true }
  return .invalid .illegalCall

def ofShapeObject : (level : Nat) → NodeId → Classifier Classified
  | 0, _ => pastLimit
  | level + 1, object => do
    if maxShapeExpansions ≤ (← get).expanded then pastLimit
    else
      modify fun s => { s with expanded := s.expanded + 1 }
      return .nested (← ofObject a r field (watching (ofShapeObject level)) object) 0

end

/-- The types that a props value declares, and what the expansion of its shapes has come to. Anything
but an object literal declares nothing. -/
def classification (a : Arena) (r : Resolver) (field : String) (propTypes : Child) :
    ClassifiedTree × Expansion :=
  match a.unparenthesized propTypes with
  | none => ([], {})
  | some object => (ofObject a r field (watching (ofShapeObject a r field maxShapeDepth)) object).run {}

def classify (a : Arena) (r : Resolver) (field : String) (propTypes : Child) : ClassifiedTree :=
  (classification a r field propTypes).1

end Classified

end PropContract
