import PropContract.Contract.Component
import PropContract.Contract.Merge
import PropContract.Contract.NameEquivalence
import PropContract.File.Path

/-!
# Checking a contract

A module must export one component, and every property of it must have a type, declared or given by
an override. A clean component gets a model.
-/

namespace PropContract

/-- What a check finds. There is a model only if nothing is wrong. -/
structure CheckResult where
  findings : List Finding := []
  component : Option Component := none
  model : Option ComponentModel := none

def exportFindings (root : Child) : List Export → List Finding
  | [] => [{ violation := .noExport, node := root }]
  | [_] => []
  | exports => exports.map fun e => { violation := .tooManyExports, node := some e.node }

namespace Arena

/-- Properties whose names differ from the component's in case and separators only. Repeated names
are all looked at. -/
def collisions (a : Arena) (propTypes : Child) (component : String) : List Finding :=
  match a.form? (a.unparenthesized propTypes) with
  | some (.objectLiteral elements) =>
    elements.filterMap fun element => do
      let name := a.memberName (some element)
      let key ← a.propertyNameText name
      if equivalentNames key component then
        return { violation := .propNameCollision, node := name, args := [key, component] }
      else none
  | _ => []

end Arena

namespace Classified

mutual

/-- The fault of a property under an override. An object goes on into a shape; any other override
covers the whole property. -/
def uncovered (a : Arena) : Classified → NodeId → Option Child → List Finding
  | .invalid v, node, none => [{ violation := v, node := some node }]
  | .nested properties _, _, none => uncoveredAll a properties []
  | .nested properties _, _, some value =>
    let value := a.unparenthesized value
    if a.isObjectLiteral value then uncoveredAll a properties (a.overrideEntries value) else []
  | _, _, _ => []

def uncoveredAll (a : Arena) :
    List (String × DeclaredProperty Classified) → Entries Child → List Finding
  | [], _ => []
  | (key, p) :: rest, overrides =>
    uncovered a p.entry p.node (overrides.get? key) ++ uncoveredAll a rest overrides

end

end Classified

/-- The component to check: the exported one, or else the first one with a contract. -/
def chosenComponent (a : Arena) (scope : Scope) (names : FieldNames) (root : Child) :
    Option Component :=
  let statements := a.statements root
  match scope.exports with
  | [e] => some (.collect a statements scope names e.localName e.declaration)
  | _ => do
    let (name, declaration) ← Component.first? a statements names
    return .collect a statements scope names name declaration

def checkContract (a : Arena) (scope : Scope) (names : FieldNames) (fileName : String)
    (root : Child) : CheckResult :=
  let findings := exportFindings root scope.exports
  match chosenComponent a scope names root with
  | none => { findings }
  | some component =>
    match a.componentOverrides component.overrides with
    | .ignored => { findings, component := some component }
    | .badIgnore node value =>
      { findings := findings ++ [{ violation := .badIgnore, node := some node, args := [value] }]
        component := some component }
    | .properties object entries =>
      let tree := Classified.classify a (scope.resolver a) names.propTypes component.propTypes
      -- Only an export by name says what the component is called.
      let trustedName := if scope.exports.length = 1 then component.name else none
      let findings := findings ++
        trustedName.toList.flatMap (a.collisions component.propTypes) ++
        Classified.uncoveredAll a tree entries ++
        a.overrideFindings object
      let model : ComponentModel :=
        { name := component.name.getD (Path.fileStem fileName)
          properties := Classified.mergeAll tree
            (entries.map fun (key, value) => (key, Override.ofValue a value)) }
      { findings, component := some component
        model := if findings.isEmpty then some model else none }

end PropContract
