import FormScript.FieldKind
import FormScript.Keyed
import Std.Data.TreeSet

/-!
# Form definitions

A form definition is a name and a list of fields. `FieldList` collects the fields of one form and
refuses a second field of the same name; `FormStore` holds the forms of a program in the order in
which their names first came, each with its latest definition.
-/

namespace FormScript

/-- What a field shows and asks for. -/
structure FieldProperties where
  label : String
  required : Bool
  placeholder : String
  options : List String
  deriving DecidableEq, Repr

/-- The properties of a field that sets none. -/
def FieldProperties.default : FieldProperties :=
  ⟨"", false, "", []⟩

/-- A field of a form. -/
structure FormField where
  kind : FieldKind
  name : String
  properties : FieldProperties
  deriving DecidableEq, Repr

/-- A form. -/
structure FormDefinition where
  name : String
  fields : List FormField
  deriving DecidableEq, Repr

/-- Fields of different names, collected one by one. The set of their names makes the test for a new
name fast. -/
structure FieldList where
  /-- The fields, the last one first. -/
  reversed : List FormField
  names : Std.TreeSet String
  mem_names : ∀ name, name ∈ names ↔ name ∈ reversed.map FormField.name

namespace FieldList

/-- No fields. -/
def empty : FieldList :=
  ⟨[], ∅, by simp⟩

/-- The fields in the order in which they came. -/
def toList (l : FieldList) : List FormField :=
  l.reversed.reverse

/-- Adds a field at the end, unless its name is taken. -/
def push? (l : FieldList) (field : FormField) : Option FieldList :=
  if field.name ∈ l.names then none
  else some ⟨field :: l.reversed, l.names.insert field.name, by
    intro name
    simp only [Std.TreeSet.mem_insert, l.mem_names, List.map_cons, List.mem_cons,
      Std.LawfulEqCmp.compare_eq_iff_eq]
    exact or_congr_left eq_comm⟩

end FieldList

/-- The forms of a program. -/
structure FormStore where
  forms : List FormDefinition
  deriving DecidableEq, Repr, Inhabited

namespace FormStore

/-- No forms. -/
def empty : FormStore :=
  ⟨[]⟩

/-- The number of forms. -/
def size (s : FormStore) : Nat :=
  s.forms.length

/-- Whether there is no form. -/
def isEmpty (s : FormStore) : Bool :=
  s.forms.isEmpty

/-- The form of the given name. -/
def get? (s : FormStore) (name : String) : Option FormDefinition :=
  Keyed.find? FormDefinition.name name s.forms

/-- Stores a form in the place of an earlier one of its name, or at the end, and hands out the
earlier one. -/
def insert (s : FormStore) (form : FormDefinition) : Option FormDefinition × FormStore :=
  let (replaced, forms) := Keyed.exchange FormDefinition.name form s.forms
  (replaced, ⟨forms⟩)

/-- Forgets all forms. -/
def clear (_ : FormStore) : FormStore :=
  empty

end FormStore

end FormScript
