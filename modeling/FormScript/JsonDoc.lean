import FormScript.Form
import FormScript.Value

/-!
# Forms as JSON

A JSON document as far as form definitions need it, and its text over several lines, indented by two
spaces a level. Control characters, quotes and backslashes in a text are escaped; all other
characters stand for themselves.
-/

namespace FormScript

/-- A JSON document. -/
inductive JsonDoc where
  | text (s : String)
  | bool (b : Bool)
  | list (items : List JsonDoc)
  | record (fields : List (String × JsonDoc))
  deriving Inhabited

namespace JsonDoc

/-- A hexadecimal digit. -/
def hexDigit (n : Nat) : Char :=
  if n < 10 then Char.ofNat ('0'.toNat + n) else Char.ofNat ('a'.toNat + (n - 10))

/-- A character inside a quoted text. -/
def escapeChar (c : Char) : List Char :=
  match c with
  | '"' => ['\\', '"']
  | '\\' => ['\\', '\\']
  | '\x08' => ['\\', 'b']
  | '\t' => ['\\', 't']
  | '\n' => ['\\', 'n']
  | '\x0c' => ['\\', 'f']
  | '\r' => ['\\', 'r']
  | c =>
    if c.toNat < 32 then
      ['\\', 'u', '0', '0', hexDigit (c.toNat / 16), hexDigit (c.toNat % 16)]
    else [c]

/-- A text in quotes. -/
def quoted (s : String) : String :=
  String.ofList ('"' :: s.toList.flatMap escapeChar ++ ['"'])

/-- The start of a line at a level. -/
def newlineAt (level : Nat) : String :=
  String.ofList ('\n' :: List.replicate (2 * level) ' ')

/-- The items of a list or record between brackets, each on lines of its own. -/
def enclosed (level : Nat) (opening closing : String) (items : List String) : String :=
  if items.isEmpty then opening ++ closing
  else
    opening ++ newlineAt (level + 1)
      ++ ("," ++ newlineAt (level + 1)).intercalate items ++ newlineAt level ++ closing

mutual

/-- The text of a document at a level. -/
def prettyAt (level : Nat) : JsonDoc → String
  | text s => quoted s
  | bool b => boolText b
  | list items => enclosed level "[" "]" (prettyItems (level + 1) items)
  | record fields => enclosed level "\x7b" "\x7d" (prettyFields (level + 1) fields)

/-- The texts of the items of a list. -/
def prettyItems (level : Nat) : List JsonDoc → List String
  | [] => []
  | item :: items => prettyAt level item :: prettyItems level items

/-- The texts of the fields of a record. -/
def prettyFields (level : Nat) : List (String × JsonDoc) → List String
  | [] => []
  | (key, value) :: fields =>
    (quoted key ++ ": " ++ prettyAt level value) :: prettyFields level fields

end

/-- The text of a document. -/
def pretty (doc : JsonDoc) : String :=
  prettyAt 0 doc

/-- The properties of a field. -/
def ofProperties (p : FieldProperties) : JsonDoc :=
  record [("label", text p.label), ("required", bool p.required),
    ("placeholder", text p.placeholder), ("options", list (p.options.map text))]

/-- A field of a form. -/
def ofField (f : FormField) : JsonDoc :=
  record [("type", text f.kind.keyword), ("name", text f.name),
    ("properties", ofProperties f.properties)]

/-- A form. -/
def ofForm (f : FormDefinition) : JsonDoc :=
  record [("name", text f.name), ("fields", list (f.fields.map ofField))]

/-- The forms of a program. -/
def ofForms (forms : List FormDefinition) : JsonDoc :=
  list (forms.map ofForm)

end JsonDoc

end FormScript
