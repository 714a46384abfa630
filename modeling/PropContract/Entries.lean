/-!
# Entries

Values under names, in the order in which the names first came.
-/

namespace PropContract

abbrev Entries (α : Type) := List (String × α)

namespace Entries

variable {α : Type}

/-- Puts a value under a name: in place of the value there, or at the end. -/
def put : Entries α → String → α → Entries α
  | [], key, value => [(key, value)]
  | (k, v) :: rest, key, value =>
    if k = key then (k, value) :: rest else (k, v) :: put rest key value

def ofList (pairs : List (String × α)) : Entries α :=
  pairs.foldl (fun entries (key, value) => entries.put key value) []

def get? (entries : Entries α) (key : String) : Option α :=
  List.lookup key entries

def keys (entries : Entries α) : List String :=
  entries.map Prod.fst

end Entries

end PropContract
