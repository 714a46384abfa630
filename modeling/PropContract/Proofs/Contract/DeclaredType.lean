import PropContract.Contract.Model
import PropContract.Limits
import PropContract.Proofs.Parse.Printed

/-!
# Declared types

The types that a component can declare without a fault, the validators that declare them, and what a
model says of them.
-/

namespace PropContract

/-- A type that validators declare. -/
inductive DeclaredType where
  | primitive (name : String)
  | enum (values : List String)
  | arrayOf (element : DeclaredType)
  | shape (properties : List (String × TypedProperty DeclaredType))
  /-- The properties of another component -/
  | shapeOf (component : String)
deriving Repr

/-- The declared properties of an object, with their required marks. -/
abbrev DeclaredProperties := List (String × TypedProperty DeclaredType)

namespace DeclaredType

/-- Whether a text can name a variable. -/
def IsName (text : String) : Prop :=
  IsIdentifier text ∧ Keyword.ofSpelling? text = none

instance (text : String) : Decidable (IsName text) :=
  inferInstanceAs (Decidable (_ ∧ _))

mutual

/-- The validator of a type. -/
def written : DeclaredType → Written
  | .primitive name => .member (.name "PropTypes") name
  | .enum values => .invoke (.name "PropTypes") "oneOf" (.strings values)
  | .arrayOf element => .invoke (.name "PropTypes") "arrayOf" element.written
  | .shape properties => .invoke (.name "PropTypes") "shape" (.object (writtenAll properties))
  | .shapeOf component =>
    .invoke (.name "PropTypes") "shape" (.member (.name component) "propTypes")

def writtenAll : DeclaredProperties → List (String × Written)
  | [] => []
  | (key, ⟨type, required⟩) :: properties =>
    (key, if required then .member type.written "isRequired" else type.written) ::
      writtenAll properties

end

mutual

/-- The type in a model. -/
def type : DeclaredType → PropertyType
  | .primitive name => .primitive name
  | .enum values => .enum (values.map .string)
  | .arrayOf element => .arrayOf element.type
  | .shape properties => .shape (typeAll properties)
  | .shapeOf component => .shapeOf component

def typeAll : DeclaredProperties → List (String × Property)
  | [] => []
  | (key, ⟨type, required⟩) :: properties => (key, ⟨type.type, required⟩) :: typeAll properties

end

mutual

def shapes : DeclaredType → Nat
  | .arrayOf element => element.shapes
  | .shape properties => shapesAll properties + 1
  | _ => 0

def shapesAll : DeclaredProperties → Nat
  | [] => 0
  | (_, ⟨type, _⟩) :: properties => type.shapes + shapesAll properties

end

mutual

/-- Whether a type is made of known primitives, of shapes without repeated names, and of names of
components. -/
def IsValid : DeclaredType → Prop
  | .primitive name => name ∈ primitiveNames
  | .enum _ => True
  | .arrayOf element => element.IsValid
  | .shape properties => (Entries.keys properties).Nodup ∧ AreValid properties
  | .shapeOf component => IsName component

def AreValid : DeclaredProperties → Prop
  | [] => True
  | (_, ⟨type, _⟩) :: properties => type.IsValid ∧ AreValid properties

end

mutual

def decidableIsValid : (t : DeclaredType) → Decidable t.IsValid
  | .primitive name => inferInstanceAs (Decidable (name ∈ primitiveNames))
  | .enum _ => isTrue trivial
  | .arrayOf element => decidableIsValid element
  | .shape properties =>
    have := decidableAreValid properties
    inferInstanceAs (Decidable (_ ∧ AreValid properties))
  | .shapeOf component => inferInstanceAs (Decidable (IsName component))

def decidableAreValid : (properties : DeclaredProperties) → Decidable (AreValid properties)
  | [] => isTrue trivial
  | (_, ⟨type, _⟩) :: properties =>
    have := decidableIsValid type
    have := decidableAreValid properties
    inferInstanceAs (Decidable (type.IsValid ∧ AreValid properties))

end

instance (properties : DeclaredProperties) : Decidable (AreValid properties) :=
  decidableAreValid properties

theorem keys_writtenAll (properties : DeclaredProperties) :
    Entries.keys (writtenAll properties) = Entries.keys properties := by
  induction properties with
  | nil => rfl
  | cons p properties ih => exact congrArg (p.1 :: ·) ih

theorem keys_typeAll (properties : DeclaredProperties) :
    Entries.keys (typeAll properties) = Entries.keys properties := by
  induction properties with
  | nil => rfl
  | cons p properties ih => exact congrArg (p.1 :: ·) ih

/-! ## Names in validators -/

theorem isIdentifier_of_primitive : ∀ name ∈ primitiveNames, IsIdentifier name := by
  decide +kernel

theorem spelled_propTypes : (Written.name "PropTypes").Spelled :=
  show IsIdentifier "PropTypes" by decide +kernel

theorem keyword_propTypes : Keyword.ofSpelling? "PropTypes" = none := by
  decide +kernel

mutual

theorem spelled_written : ∀ {t : DeclaredType}, t.IsValid → t.written.Spelled
  | .primitive name, h => ⟨spelled_propTypes, isIdentifier_of_primitive name h⟩
  | .enum _, _ => ⟨spelled_propTypes, by decide +kernel, trivial⟩
  | .arrayOf _, h => ⟨spelled_propTypes, by decide +kernel, spelled_written h⟩
  | .shape _, h => ⟨spelled_propTypes, by decide +kernel, spelled_writtenAll h.2⟩
  | .shapeOf _, h => ⟨spelled_propTypes, by decide +kernel, h.1, by decide +kernel⟩

theorem spelled_writtenAll : ∀ {properties : DeclaredProperties}, AreValid properties →
    Written.PropertiesSpelled (writtenAll properties)
  | [], _ => trivial
  | (_, ⟨_, required⟩) :: _, ⟨h, hrest⟩ => by
      refine ⟨?_, spelled_writtenAll hrest⟩
      cases required with
      | false => exact spelled_written h
      | true => exact ⟨spelled_written h, by decide +kernel⟩

end

mutual

theorem namesFree_written : ∀ {t : DeclaredType}, t.IsValid → t.written.NamesFree
  | .primitive _, _ => keyword_propTypes
  | .enum _, _ => ⟨keyword_propTypes, trivial⟩
  | .arrayOf _, h => ⟨keyword_propTypes, namesFree_written h⟩
  | .shape _, h => ⟨keyword_propTypes, namesFree_writtenAll h.2⟩
  | .shapeOf _, h => ⟨keyword_propTypes, h.2⟩

theorem namesFree_writtenAll : ∀ {properties : DeclaredProperties}, AreValid properties →
    Written.PropertyNamesFree (writtenAll properties)
  | [], _ => trivial
  | (_, ⟨_, required⟩) :: _, ⟨h, hrest⟩ => by
      refine ⟨?_, namesFree_writtenAll hrest⟩
      cases required <;> exact namesFree_written h

end

end DeclaredType

end PropContract
