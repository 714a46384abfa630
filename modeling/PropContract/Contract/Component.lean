import PropContract.Contract.Vocabulary
import PropContract.Scope.Basic

/-!
# Components

A component declares its contract in static fields, either as members of its class or by assignments
after its declaration. Both are read into the same record.
-/

namespace PropContract

structure Component where
  name : Option String
  classNode : Child := none
  propTypes : Child := none
  overrides : Child := none
deriving DecidableEq, Repr

namespace Arena

def isClass (a : Arena) (child : Child) : Bool :=
  a.form? child matches some (.classDeclaration ..) | some (.classExpression ..)

def classMembers (a : Arena) (child : Child) : List NodeId :=
  match a.form? child with
  | some (.classDeclaration _ _ members)
  | some (.classExpression _ _ members) => members
  | _ => []

/-- The name and the value of a static field with a written name. -/
def staticField? (a : Arena) (member : NodeId) : Option (String × Child) := do
  let node ← a.get? member
  match node.form with
  | .propertyDeclaration name value =>
    if node.modifiers.isStatic then return (← a.propertyNameText (some name), value) else none
  | _ => none

def staticFields (a : Arena) (classNode : Child) : List (String × Child) :=
  (a.classMembers classNode).filterMap a.staticField?

/-- What a statement assigns: the target and the value. A statement that is just an expression has it
for a target, without a value. -/
def assignment? (a : Arena) (statement : NodeId) : Option (Child × Child) :=
  match a.form? statement with
  | some (.expressionStatement e) =>
    match a.form? e with
    | some (.binary left (.assign .equals) right) => some (left, right)
    | some (.binary ..) => none
    | some _ => some (e, none)
    | none => none
  | _ => none

/-- The owner and the field of `Owner.field` or `Owner["field"]`. -/
def fieldAccess? (a : Arena) (target : Child) : Option (String × String) :=
  match a.form? target with
  | some (.propertyAccess owner name _) => do
    return (← a.identifierText owner, ← a.identifierText name)
  | some (.elementAccess owner argument _) => do
    return (← a.identifierText owner, ← a.stringText argument)
  | _ => none

def fieldStatement? (a : Arena) (statement : NodeId) : Option (String × String × Child) := do
  let (target, value) ← a.assignment? statement
  let (owner, field) ← a.fieldAccess? target
  return (owner, field, value)

/-- The class that a top-level name stands for: a class declaration, or a variable with a class for
its value. -/
def classOf (a : Arena) (scope : Scope) (name : String) : Child :=
  match scope.lookup name with
  | none => none
  | some s =>
    let value := a.unparenthesized s.initializer
    if a.isClass s.node then some s.node
    else if a.isClass value then value
    else none

end Arena

namespace FieldNames

def contains (names : FieldNames) (field : String) : Bool :=
  field == names.propTypes || field == names.overrides

end FieldNames

namespace Component

/-- Sets a field of the contract. A field without a value changes nothing. -/
def setField (names : FieldNames) (c : Component) (field : String) (value : Child) : Component :=
  if value.isNone then c
  else if field = names.propTypes then { c with propTypes := value }
  else if field = names.overrides then { c with overrides := value }
  else c

def assignedFields (a : Arena) (statements : List NodeId) (name : String) : List (String × Child) :=
  statements.filterMap fun statement => do
    let (owner, field, value) ← a.fieldStatement? statement
    if owner = name then return (field, value) else none

/-- The component with a name, a declaration, or both. Members of its class come first, then
assignments, and the last value of a field counts. -/
def collect (a : Arena) (statements : List NodeId) (scope : Scope) (names : FieldNames)
    (name : Option String) (declaration : Child) : Component :=
  let classNode := if a.isClass declaration then declaration else name.bind (a.classOf scope)
  let assigned := name.toList.flatMap (assignedFields a statements)
  (a.staticFields classNode ++ assigned).foldl
    (fun c (field, value) => c.setField names field value) { name, classNode }

/-- The component of a variable, if its value is a class that declares a field of the contract. -/
def ofVariable? (a : Arena) (names : FieldNames) (id : NodeId) : Option (Option String × Child) :=
  match a.form? id with
  | some (.variableDeclaration name value) => do
    let value := a.unparenthesized value
    if (a.staticFields value).any (names.contains ·.1) then
      return (some (← a.identifierText name), value)
    else none
  | _ => none

def ofStatement? (a : Arena) (names : FieldNames) (statement : NodeId) :
    Option (Option String × Child) :=
  match a.form? statement with
  | some (.classDeclaration name _ _) =>
    if (a.staticFields statement).any (names.contains ·.1) then
      some (a.identifierText name, some statement)
    else none
  | some (.variableStatement _ declarations) => declarations.findSome? (ofVariable? a names)
  | some (.expressionStatement _) => do
    let (owner, field, _) ← a.fieldStatement? statement
    if names.contains field then return (some owner, none) else none
  | _ => none

def first? (a : Arena) (statements : List NodeId) (names : FieldNames) :
    Option (Option String × Child) :=
  statements.findSome? (ofStatement? a names)

end Component

end PropContract
