import PropContract.Tree.Node

/-!
# The node table

Nodes are added bottom up and never removed; adding one makes it the parent of its children. The
queries see through a missing child: they answer as for a node of no use.
-/

namespace PropContract

structure Arena where
  nodes : Array Node := #[]
deriving DecidableEq, Repr

namespace Arena

def size (a : Arena) : Nat := a.nodes.size

def get? (a : Arena) (id : NodeId) : Option Node := a.nodes[id]?

/-- Makes `parent` the parent of `child`, if there is such a node. -/
def adopt (parent : NodeId) (a : Arena) (child : Child) : Arena :=
  match child with
  | some id => { nodes := a.nodes.modify id fun n => { n with parent := some parent } }
  | none => a

/-- Adds a node; it becomes the parent of its children. -/
def add (a : Arena) (n : Node) : Arena :=
  let adopted := n.form.children.foldl (adopt a.size) a
  { nodes := adopted.nodes.push n }

def form? (a : Arena) (child : Child) : Option Form := do
  return (← a.get? (← child)).form

def identifierText (a : Arena) (child : Child) : Option String :=
  match a.form? child with
  | some (.identifier name) => some name
  | _ => none

def statements (a : Arena) (root : Child) : List NodeId :=
  match a.form? root with
  | some (.sourceFile statements _) => statements
  | _ => []

def literalElements (a : Arena) (literal : Child) : List Child :=
  match a.form? literal with
  | some (.objectLiteral elements) => elements.map some
  | some (.arrayLiteral elements) => elements
  | _ => []

def isObjectLiteral (a : Arena) (child : Child) : Bool :=
  a.form? child matches some (.objectLiteral _)

/-- The value of a string or of a template without substitutions. -/
def stringText (a : Arena) (child : Child) : Option String :=
  match a.form? child with
  | some (.literal .string text) | some (.literal .plainTemplate text) => some text
  | _ => none

/-- The name of a property where it is written out: an identifier, a string or a number. -/
def propertyNameText (a : Arena) (child : Child) : Option String :=
  match a.form? child with
  | some (.identifier text)
  | some (.literal .string text)
  | some (.literal .plainTemplate text)
  | some (.literal .numeric text) => some text
  | _ => none

def memberName (a : Arena) (child : Child) : Child :=
  match a.form? child with
  | some (.propertyAssignment name _)
  | some (.shorthandProperty name)
  | some (.propertyDeclaration name _) => some name
  | some (.methodDeclaration name _) => name
  | _ => none

/-- Strips at most `n` pairs of parentheses. -/
def stripParentheses (a : Arena) : (n : Nat) → Child → Child
  | 0, child => child
  | n + 1, child =>
    match a.form? child with
    | some (.parenthesized e) => a.stripParentheses n e
    | _ => child

/-- What stands inside any number of parentheses. -/
def unparenthesized (a : Arena) (child : Child) : Child :=
  a.stripParentheses a.size child

/-- The names of at most `n` links of a chain, the last name first. -/
def accessNames (a : Arena) : (n : Nat) → Child → Option (List String)
  | 0, _ => none
  | n + 1, child =>
    match a.form? child with
    | some (.propertyAccess target name _) => do
      return (← a.identifierText name) :: (← a.accessNames n target)
    | some (.identifier name) => some [name]
    | _ => none

/-- The names of a chain such as `a.b.c`, if every link is a plain name. -/
def accessChain (a : Arena) (child : Child) : Option (List String) :=
  (a.accessNames a.size child).map List.reverse

end Arena

end PropContract
