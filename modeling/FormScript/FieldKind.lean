/-!
# Kinds of form fields

A form asks for a line of text, a choice from a list or a tick. `FieldKind.keyword` is the word for
the kind, both in programs and in form definitions.
-/

namespace FormScript

/-- What a form field asks for. -/
inductive FieldKind where
  | string
  | select
  | checkbox
  deriving DecidableEq, Repr, Inhabited

namespace FieldKind

/-- The word that names the kind. -/
def keyword : FieldKind → String
  | string => "string_field"
  | select => "select_field"
  | checkbox => "checkbox_field"

/-- The kind that a word names. -/
def ofKeyword? : String → Option FieldKind
  | "string_field" => some string
  | "select_field" => some select
  | "checkbox_field" => some checkbox
  | _ => none

end FieldKind

end FormScript
