import PropContract.Parse.Module
import PropContract.Scope.Declaration

/-!
# Scopes

The top-level scope of a module, and what its names refer to.
-/

namespace PropContract

/-- The top-level names in the order in which they first came, no name twice; the exports; and the
names of the validator library. -/
structure Scope where
  symbols : List Symbol := []
  exports : List Export := []
  validatorNames : List String := []
deriving DecidableEq, Repr

namespace Scope

/-- Adds a later declaration of the same name: its flags, and where it is imported from if that is
not known yet. -/
def merge (s : Symbol) (d : Declaration) : Symbol :=
  { s with
    flags := s.flags.union d.flags
    source := if (s.source.bind (·.module?)).isSome then s.source else d.source.or s.source }

/-- Declares a name among `symbols`. The first declaration of a name stays. -/
def declare : List Symbol → Declaration → List Symbol
  | [], d => [d]
  | s :: rest, d => if s.name = d.name then merge s d :: rest else s :: declare rest d

def markExported (exports : List Export) (symbols : List Symbol) : List Symbol :=
  symbols.map fun s =>
    if exports.any (·.localName == some s.name) then
      { s with flags := { s.flags with isExported := true } }
    else s

/-- Adds the declarations and exports of statements. An export may stand before the declaration that
it names, so names are marked at the end. -/
def add (scope : Scope) (a : Arena) (statements : List NodeId) : Scope :=
  let exports := scope.exports ++ statements.flatMap a.exports
  { symbols := markExported exports <|
      (statements.flatMap a.declarations).foldl declare scope.symbols
    exports
    validatorNames :=
      (scope.validatorNames ++ statements.flatMap a.validatorNames).eraseDups }

def ofModule (m : Module) : Scope :=
  add {} m.arena m.statements

def lookup (scope : Scope) (name : String) : Option Symbol :=
  scope.symbols.find? (·.name == name)

end Scope

/-- What a top-level name refers to. An imported name is not followed. -/
inductive Reference where
  | objectLiteral (id : NodeId)
  | arrayLiteral (id : NodeId)
  | imported (module : String)
  | unresolved
deriving DecidableEq, Repr

/-- How a name is looked up, and which names stand for the validator library. -/
structure Resolver where
  resolve : String → Reference
  isValidatorNamespace : String → Bool := (· == "PropTypes")

namespace Scope

/-- What a name of the module refers to. -/
def resolve (scope : Scope) (a : Arena) (name : String) : Reference :=
  match scope.lookup name with
  | none => .unresolved
  | some s =>
    if s.flags.isImport then .imported ((s.source.bind (·.module?)).getD "")
    else
      match a.unparenthesized s.initializer with
      | none => .unresolved
      | some id =>
        match a.form? id with
        | some (.objectLiteral _) => .objectLiteral id
        | some (.arrayLiteral _) => .arrayLiteral id
        | _ => .unresolved

def isValidatorNamespace (scope : Scope) (name : String) : Bool :=
  name == "PropTypes" || scope.validatorNames.contains name

def resolver (scope : Scope) (a : Arena) : Resolver where
  resolve := scope.resolve a
  isValidatorNamespace := scope.isValidatorNamespace

end Scope

end PropContract
