import PropContract.Parse.Expression

/-!
# Binding patterns

What stands left of the equals sign of a variable: a name, or a pattern that takes a value apart.
-/

namespace PropContract.Parser

section

variable (parse : Parser Child)

/-- An element of an object pattern: `...rest`, `name`, `name = default` or `name: pattern`. -/
def objectPatternElement : Parser NodeId := do
  let start ← pos
  if ← accept (.punct .dotDotDot) then
    finish (.bindingElement none (← parse) none true) start
  else
    let property ← propertyName expression
    let (propertyName, name) ←
      if ← accept (.punct .colon) then pure (property, ← parse) else pure (none, property)
    let value ← initializer expression
    finish (.bindingElement propertyName name value false) start

def objectPattern : Parser Child := do
  let start ← pos
  next
  let elements ← commaList .closeBrace (objectPatternElement parse)
  finishChild (.objectPattern elements) start

def arrayPatternElement : Parser NodeId := do
  let start ← pos
  let rest ← accept (.punct .dotDotDot)
  let name ← parse
  let value ← initializer expression
  finish (.bindingElement none name value rest) start

def arrayPattern : Parser Child := do
  let start ← pos
  next
  let hole : Parser NodeId := do
    let hole ← finish .omitted (← pos)
    next
    return hole
  let elements ← holedList hole (arrayPatternElement parse)
  finishChild (.arrayPattern elements) start

/-- A name or one level of a pattern, with `parse` for the patterns in it. -/
def bindingStep : Parser Child := do
  match ← kind with
  | .identifier => identifierName
  | .punct .openBrace => objectPattern parse
  | .punct .openBracket => arrayPattern parse
  | _ =>
    errorHere .identifierExpected
    return none

end

/-- A name or a pattern of at most `n` levels. -/
def bindingIn : (n : Nat) → Parser Child
  | 0 => return none
  | n + 1 => bindingStep (bindingIn n)

def binding : Parser Child := do bindingIn (← budget)

end PropContract.Parser
