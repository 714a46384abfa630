import PropContract.Text.Alphanumeric
import PropContract.Text.Lowercase

/-!
# Equivalent names

Names that differ in case and separators only, so that generated code could not tell them apart.
-/

namespace PropContract

/-- A name without separators, in lower case. -/
def normalizedName (name : String) : List Char :=
  (name.toList.filter Text.isAlphanumeric).flatMap Text.lowercase

def equivalentNames (a b : String) : Bool :=
  normalizedName a == normalizedName b

end PropContract
