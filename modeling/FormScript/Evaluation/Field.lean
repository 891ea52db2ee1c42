import FormScript.Evaluation.Expression

/-!
# Resolving fields

A field declaration becomes a form field: its name, with the number of the loop pass appended inside
a loop, and its properties. Labels and placeholders are texts, `required` is a truth value and
`options` an array of texts and variables, of which empty ones and those that are no texts are left
out. All other properties are passed over and reported.
-/

namespace FormScript

/-- The option that an array item stands for. What is no text counts as empty. -/
def resolveOption (scopes : Scopes) : Node → Except RuntimeError String
  | .str _ s => .ok s
  | .ident o name => do
    match ← locate o.line (scopes.value name) with
    | .string s => return s
    | _ => return ""
  | _ => .ok ""

/-- The options that an array stands for, without empty ones. -/
def resolveOptions (scopes : Scopes) : List Node → Except RuntimeError (List String)
  | [] => .ok []
  | item :: items => do
    let option ← resolveOption scopes item
    let options ← resolveOptions scopes items
    return if option = "" then options else option :: options

/-- The effect of one property of `field`, or `none` for a property that has no effect. -/
def applyProperty (scopes : Scopes) (field : String) (p : FieldProperties) :
    Node → Except RuntimeError (Option FieldProperties)
  | .array _ "options" items => do
    return some { p with options := ← resolveOptions scopes items }
  | .scalar o "options" _ => .error ⟨o.line, .badProperty field "options" "must be an array"⟩
  | .scalar _ "label" (.str _ label) => .ok (some { p with label })
  | .scalar _ "placeholder" (.str _ placeholder) => .ok (some { p with placeholder })
  | .scalar _ "required" (.bool _ required) => .ok (some { p with required })
  | .scalar _ _ _ | .array _ _ _ => .ok none
  | n => .error ⟨n.line, .unexpectedNode n.describe "field extraction"⟩

/-- The key of a property. -/
def Node.key : Node → String
  | .scalar _ key _ | .array _ key _ => key
  | _ => ""

/-- The name of a field, inside the loop pass of the given number if there is one. -/
def suffixed (name : String) : Option Nat → String
  | some pass => s!"{name}_{pass}"
  | none => name

namespace Run

/-- Applies properties in order, over those that are set already. -/
def applyProperties (kind : FieldKind) (field : String) :
    List Node → FieldProperties → Run FieldProperties
  | [], p => return p
  | property :: rest, p => do
    match ← ofExcept (applyProperty (← get).scopes field p property) with
    | some p => applyProperties kind field rest p
    | none =>
      record (.propertyIgnored field property.key kind)
      applyProperties kind field rest p

/-- Resolves a field of `form` and adds it to the fields before it. -/
def addField (form : String) (pass : Option Nat) (line : Nat) (kind : FieldKind) (name : String)
    (properties : List Node) (fields : FieldList) : Run FieldList := do
  let name := suffixed name pass
  let properties ← applyProperties kind name properties .default
  match fields.push? ⟨kind, name, properties⟩ with
  | some fields => return fields
  | none => fail line (.duplicateField form name)

/-- Adds the fields of a block. Assignments and empty lines have no place in a form. -/
def addFields (form : String) (pass : Option Nat) : List Node → FieldList → Run FieldList
  | [], fields => return fields
  | .field o kind name properties :: rest, fields => do
    let fields ← addField form pass o.line kind name properties fields
    addFields form pass rest fields
  | .assign _ _ _ :: rest, fields => addFields form pass rest fields
  | .blank _ :: rest, fields => addFields form pass rest fields
  | n :: _, _ => fail n.line (.unexpectedNode n.describe "form extraction")

/-- Adds the fields of a node that should be a block. -/
def addBlock (form : String) (pass : Option Nat) (fields : FieldList) : Node → Run FieldList
  | .block _ body => addFields form pass body fields
  | n => fail n.line (.unexpectedNode n.describe "form extraction")

end Run

end FormScript
