import PropContract.Contract.Vocabulary
import PropContract.Json.Reader

/-!
# Configuration

What the configuration file sets: which files are checked, where models go, and what the fields of a
contract are called. It is an object, or a list with the settings in their order.
-/

namespace PropContract

structure Config where
  included : List String := ["**/*.jsx"]
  excluded : List String := ["**/node_modules/**"]
  outputFolder : Option String := none
  names : FieldNames := {}
deriving DecidableEq, Repr

inductive ConfigError where
  | malformed
  | emptyName
deriving DecidableEq, Repr

def ConfigError.message : ConfigError → String
  | malformed => "failed to parse vmc.json"
  | emptyName => "propTypesField and metaField must not be empty"

namespace Config

def fileName : String := "vmc.json"

def settings : List String := ["include", "exclude", "outDir", "propTypesField", "metaField"]

/-- Sets one setting, if there is such a setting and it can have the value. -/
def set? (c : Config) (setting : String) (value : Json) : Option Config := do
  match setting with
  | "include" => return { c with included := ← value.strings? }
  | "exclude" => return { c with excluded := ← value.strings? }
  | "outDir" =>
    match value with
    | .null => return { c with outputFolder := none }
    | _ => return { c with outputFolder := some (← value.string?) }
  | "propTypesField" => return { c with names := { c.names with propTypes := ← value.string? } }
  | "metaField" => return { c with names := { c.names with overrides := ← value.string? } }
  | _ => none

/-- The configuration that settings make, none of them set twice. -/
def ofMembers? (members : List (String × Json)) : Option Config :=
  if (members.map Prod.fst).Nodup then
    members.foldlM (fun c (setting, value) => c.set? setting value) {}
  else none

def ofJson? : Json → Option Config
  | .object members => ofMembers? members
  | .array items =>
    if items.length ≤ settings.length then ofMembers? (settings.zip items) else none
  | _ => none

def parse (text : String) : Except ConfigError Config := do
  match (Json.ofText? text).bind ofJson? with
  | none => throw .malformed
  | some c =>
    if c.names.propTypes.isEmpty || c.names.overrides.isEmpty then throw .emptyName else return c

end Config

end PropContract
