/-!
# Limits

Bounds on nesting and on work, so that every walk over a module ends early on pathological input.
-/

namespace PropContract

/-- How deep expressions may nest before the parser gives up on the statement. -/
def maxExpressionDepth : Nat := 256

/-- How deep shapes may nest inside a props declaration. -/
def maxShapeDepth : Nat := 64

/-- How many shape objects one props declaration may expand. -/
def maxShapeExpansions : Nat := 4096

/-- How deep override objects and arrays may nest. -/
def maxMetaDepth : Nat := 64

/-- How deep brackets, templates and markup may nest in text that is stepped over. -/
def maxSkipDepth : Nat := 1024

end PropContract
