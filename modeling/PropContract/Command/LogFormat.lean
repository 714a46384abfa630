import PropContract.Text.Lowercase

/-!
# Log formats

The formats of log lines. Any word that names no other one names plain text.
-/

namespace PropContract

inductive LogFormat where
  | text | tree | json
deriving DecidableEq, Repr

namespace LogFormat

def ofWord (word : String) : LogFormat :=
  match String.ofList (word.toList.flatMap Text.lowercase) with
  | "tree" => tree
  | "json" => json
  | _ => text

end LogFormat

end PropContract
