import PropContract.Contract.Classify
import PropContract.Contract.Override

/-!
# Merging

The model of a clean component: every override replaces the declared type of its property, and an
override object goes into a shape property by property.
-/

namespace PropContract

namespace Override

def type : Override → OverrideType
  | .named t nullable => .named t nullable
  | .component name => .component name
  | .arrayOf element => .arrayOf element.type
  | .object entries => .object (entryTypes entries)
  | .ignore | .invalid => .unknown
where
  /-- The types of the entries that are not left out. -/
  entryTypes : List (String × Override) → List (String × OverrideType)
    | [] => []
    | (_, .ignore) :: rest => entryTypes rest
    | (key, entry) :: rest => (key, entry.type) :: entryTypes rest

end Override

namespace Classified

mutual

/-- The type of a property under an override, if it keeps one. -/
def merge : Classified → Option Override → Option PropertyType
  | _, some .ignore => none
  | .nested properties arrays, some (.object entries) =>
    some ((PropertyType.shape (mergeAll properties entries)).inArrays arrays)
  | _, some o => some (.override o.type)
  | .valid type, none => some type
  | .nested properties arrays, none =>
    some ((PropertyType.shape (mergeAll properties [])).inArrays arrays)
  | .invalid _, none => none

/-- The properties that keep a type. Overrides without a property count for nothing. -/
def mergeAll : List (String × DeclaredProperty Classified) → Entries Override →
    List (String × Property)
  | [], _ => []
  | (key, p) :: rest, overrides =>
    match merge p.entry (overrides.get? key) with
    | some type => (key, { type, required := p.required }) :: mergeAll rest overrides
    | none => mergeAll rest overrides

end

end Classified

end PropContract
