import PropContract.Scope.Symbol
import PropContract.Tree.Arena

/-!
# What a statement declares

The names that one top-level statement declares, the exports it makes, and the names it gives to the
validator library.
-/

namespace PropContract

/-- The module that the validators are imported from. -/
def validatorModule : String := "prop-types"

namespace Arena

/-! ## Declarations -/

/-- The names that a pattern of at most `n` levels binds, from left to right. -/
def boundNamesIn (a : Arena) : (n : Nat) → Child → List String
  | 0, _ => []
  | n + 1, pattern =>
    match a.form? pattern with
    | some (.identifier name) => [name]
    | some (.objectPattern elements)
    | some (.arrayPattern elements) => elements.flatMap fun e => a.boundNamesIn n (some e)
    | some (.bindingElement _ name _ _) => a.boundNamesIn n name
    | _ => []

def boundNames (a : Arena) (pattern : Child) : List String :=
  a.boundNamesIn a.size pattern

/-- What a variable declares: its name with its value, or the names of its pattern without one. -/
def variableDeclarations (a : Arena) (flags : SymbolFlags) (id : NodeId) : List Declaration :=
  match a.form? id with
  | some (.variableDeclaration name initializer) =>
    match a.identifierText name with
    | some text => [{ name := text, flags, node := id, initializer }]
    | none => (a.boundNames name).map fun text => { name := text, flags, node := id }
  | _ => []

/-- The declaration of an import, if its local name is an identifier. -/
def importDeclaration? (a : Arena) (module? : Option String) (localName : Child) (node : Child)
    (name : String → String) : Option Declaration := do
  let text ← a.identifierText localName
  return { name := text, flags := { isImport := true }, node := ← node
           source := some { module?, name := name text } }

/-- The declaration of an imported name in braces. -/
def specifierDeclaration? (a : Arena) (module? : Option String) (id : NodeId) :
    Option Declaration :=
  match a.form? id with
  | some (.importSpecifier propertyName name)
  | some (.exportSpecifier propertyName name) =>
    a.importDeclaration? module? name (some id) fun localName =>
      (a.propertyNameText propertyName).getD localName
  | _ => none

def declarations (a : Arena) (statement : NodeId) : List Declaration :=
  match a.form? statement with
  | some (.variableStatement word declarations) =>
    declarations.flatMap <|
      a.variableDeclarations { isVariable := true, isConst := word == .constWord }
  | some (.classDeclaration name _ _) =>
    (a.identifierText name).toList.map fun text =>
      { name := text, flags := { isClass := true }, node := statement }
  | some (.functionDeclaration name _) =>
    (a.identifierText name).toList.map fun text =>
      { name := text, flags := { isFunction := true }, node := statement }
  | some (.importDeclaration defaultName ns named specifier) =>
    let module? := a.stringText specifier
    (a.importDeclaration? module? defaultName defaultName fun _ => "default").toList ++
      (a.importDeclaration? module? ns ns fun _ => "*").toList ++
      (named.getD []).filterMap (a.specifierDeclaration? module?)
  | _ => []

/-! ## Validator namespaces -/

/-- The names that a statement gives to the whole validator library. -/
def validatorNames (a : Arena) (statement : NodeId) : List String :=
  match a.form? statement with
  | some (.importDeclaration defaultName ns _ specifier) =>
    if a.stringText specifier = some validatorModule then
      (a.identifierText defaultName).toList ++ (a.identifierText ns).toList
    else []
  | _ => []

/-! ## Exports -/

def specifierExport? (a : Arena) (id : NodeId) : Option Export :=
  match a.form? id with
  | some (.importSpecifier propertyName name)
  | some (.exportSpecifier propertyName name) =>
    some { kind := .specifier, node := id, localName := a.identifierText (propertyName.or name) }
  | _ => none

def variableExport? (a : Arena) (id : NodeId) : Option Export :=
  match a.form? id with
  | some (.variableDeclaration name _) =>
    some { kind := .declarator, node := id, localName := a.identifierText name }
  | _ => none

/-- The export of a class or function by its own declaration. -/
def declarationExport (a : Arena) (modifiers : Modifiers) (statement : NodeId) (name : Child) :
    Export where
  kind := if modifiers.isDefault then .defaultDeclaration else .declaration
  node := statement
  localName := a.identifierText name
  declaration := some statement

/-- The exports of a statement, in source order. Names that come from another module are not
counted, and of default exports only names are. -/
def exports (a : Arena) (statement : NodeId) : List Export :=
  match a.get? statement with
  | none => []
  | some node =>
    match node.form with
    | .variableStatement _ declarations =>
      if node.modifiers.exported then declarations.filterMap a.variableExport? else []
    | .classDeclaration name _ _
    | .functionDeclaration name _ =>
      if node.modifiers.exported then [a.declarationExport node.modifiers statement name] else []
    | .exportDeclaration (some clause) _ none => clause.filterMap a.specifierExport?
    | .exportAssignment e =>
      (a.identifierText (a.unparenthesized e)).toList.map fun name =>
        { kind := .defaultExpression, node := statement, localName := some name }
    | _ => []

end Arena

end PropContract
