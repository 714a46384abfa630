import PropContract.Tree.Node

/-!
# Symbols

The names of a module's top level, the exports that can name a component, and the scope they make up.
-/

namespace PropContract

/-- What a name was declared as. Several declarations of one name add up. -/
structure SymbolFlags where
  isVariable : Bool := false
  isClass : Bool := false
  isFunction : Bool := false
  isImport : Bool := false
  isExported : Bool := false
  isConst : Bool := false
deriving DecidableEq, Repr

namespace SymbolFlags

def union (a b : SymbolFlags) : SymbolFlags where
  isVariable := a.isVariable || b.isVariable
  isClass := a.isClass || b.isClass
  isFunction := a.isFunction || b.isFunction
  isImport := a.isImport || b.isImport
  isExported := a.isExported || b.isExported
  isConst := a.isConst || b.isConst

/-- The flags as a set of bits. -/
def bits (f : SymbolFlags) : Nat :=
  f.isVariable.toNat + 2 * f.isClass.toNat + 4 * f.isFunction.toNat + 8 * f.isImport.toNat +
    16 * f.isExported.toNat + 32 * f.isConst.toNat

end SymbolFlags

/-- Where an imported name comes from: the module, and its name there, which is `default` for the
default export and `*` for the whole module. -/
structure ImportSource where
  module? : Option String
  name : String
deriving DecidableEq, Repr

/-- A declaration of a top-level name: what it is declared as, the declaring node, and the value of
a plain variable. -/
structure Declaration where
  name : String
  flags : SymbolFlags
  node : NodeId
  initializer : Child := none
  source : Option ImportSource := none
deriving DecidableEq, Repr

abbrev Symbol := Declaration

inductive ExportKind where
  /-- `export default A` -/
  | defaultExpression
  /-- `export default class A`, with or without the name -/
  | defaultDeclaration
  /-- One name of `export { a, b as c }` -/
  | specifier
  /-- One variable of `export const a = …` -/
  | declarator
  /-- `export class A` -/
  | declaration
deriving DecidableEq, Repr

def ExportKind.name : ExportKind → String
  | defaultExpression => "DefaultExpression"
  | defaultDeclaration => "DefaultDeclaration"
  | specifier => "Specifier"
  | declarator => "Variable"
  | declaration => "Declaration"

/-- An export that can name a component: the node it is reported on, the local name of what it
exports, and the class or function that it declares. -/
structure Export where
  kind : ExportKind
  node : NodeId
  localName : Option String
  declaration : Child := none
deriving DecidableEq, Repr

end PropContract
