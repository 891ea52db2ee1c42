import FormScript.TokenStream

/-!
# Field declarations

A field declaration is a kind, a name and properties in braces. A property is a key with a literal
or an array of texts and names; properties are divided by commas or line ends. A key that comes
again keeps its first place, with the number and line of the node there, and takes the later value.
-/

namespace FormScript.Grammar

open Parse

/-- The value of a property. -/
inductive PropertyValue where
  | scalar (value : Node)
  | array (items : List Node)

/-- The node of a property. -/
def PropertyValue.toNode (origin : Origin) (key : String) : PropertyValue → Node
  | scalar value => .scalar origin key value
  | array items => .array origin key items

/-- The key of a property node. -/
def propertyKey? : Node → Option String
  | .scalar _ key _ | .array _ key _ => some key
  | _ => none

/-- An item of an array: a text or a name. -/
def arrayItem : Parse Node := do
  let here ← peek
  match here.token with
  | .text content =>
    let _ ← advance
    return .str (← fresh here.line) content
  | .identifier name =>
    let _ ← advance
    return .ident (← fresh here.line) name
  | _ => unexpected "a string or identifier" "options array"

/-- One item of an array, with the comma behind it if there is one, or the end of the array. -/
def arrayItem? : Parse (Option Node) := do
  skipNewlines
  if ← eat (.mark .closeBracket) then
    return none
  let item ← arrayItem
  skipNewlines
  if ← eat (.mark .comma) then
    return some item
  if ← check (.mark .closeBracket) then
    return some item
  unexpected "',' or ']'" "options array"

/-- Texts and names in brackets. -/
def array : Parse (List Node) := do
  expectMark .openBracket "options array"
  many "options array" arrayItem?

/-- The value of a property: a literal or an array. -/
def propertyValue : Parse PropertyValue := do
  let here ← peek
  match here.token with
  | .text content =>
    let _ ← advance
    return .scalar (.str (← fresh here.line) content)
  | .boolean b =>
    let _ ← advance
    return .scalar (.bool (← fresh here.line) b)
  | .integer n =>
    let _ ← advance
    return .scalar (.int (← fresh here.line) n)
  | .mark .openBracket => return .array (← array)
  | _ => unexpected "a string, boolean, integer or array" "field properties"

/-- Puts a property in its place: at the end if its key is new, else in place of the earlier one. -/
def putProperty (properties : List Node) (line : Nat) (key : String) (value : PropertyValue) :
    Parse (List Node) := do
  if properties.any (propertyKey? · = some key) then
    return properties.map fun property =>
      if propertyKey? property = some key then value.toNode property.origin key else property
  else
    return properties ++ [value.toNode (← fresh line) key]

/-- One more property, with the comma behind it if there is one, or the end of the properties. -/
def nextProperty? (properties : List Node) : Parse (Option (List Node)) := do
  skipNewlines
  if ← eat (.mark .closeBrace) then
    return none
  let line := (← peek).line
  let key ← expectIdentifier "field properties"
  expectMark .colon "field properties"
  let value ← propertyValue
  let properties ← putProperty properties line key value
  if ← eat (.mark .comma) then
    return some properties
  if ← check .newline then
    return some properties
  if ← check (.mark .closeBrace) then
    return some properties
  unexpected "',', a newline or '\x7d'" "field properties"

/-- The properties of a field, up to and with the closing brace. -/
def properties : Parse (List Node) :=
  foldMany "field properties" nextProperty? []

/-- A field declaration. -/
def fieldDeclaration : Parse Node := do
  let here ← peek
  match here.token with
  | .fieldKind kind =>
    let _ ← advance
    let name ← expectIdentifier "field declaration"
    expectMark .openBrace "field declaration"
    let properties ← properties
    return .field (← fresh here.line) kind name properties
  | _ => unexpected "a field type" "field declaration"

end FormScript.Grammar
