import FormScript.Grammar.Expression
import FormScript.Grammar.Field

/-!
# Form declarations

A form holds fields, and blocks of fields behind an `if` or a `for`. Its brace needs no line end
behind it and its blocks none after them. The block of an `if` holds fields and empty lines; the
block of a `for` may also assign, so that its condition can change. The rule for blocks is an
argument, since blocks hold forms in turn.
-/

namespace FormScript.Grammar

open Parse

/-- The two constructs of a form that hold a block. -/
inductive FormContainer where
  | branch
  | loop
  deriving DecidableEq, Repr

/-- The word for a form's construct. -/
def FormContainer.text : FormContainer → String
  | branch => "if"
  | loop => "for"

/-- Whether a statement may stand in a form's block: fields and empty lines everywhere, assignments
only where a condition is tested again. -/
def FormContainer.admits (container : FormContainer) : Node → Bool
  | .field _ _ _ _ | .blank _ => true
  | .assign _ _ _ => container = .loop
  | _ => false

/-- Fails at the first statement of a block that a form does not admit. -/
def checkFormBody (container : FormContainer) : Node → Parse Unit
  | .block _ body =>
    match body.find? (fun statement => !container.admits statement) with
    | some statement =>
      fail statement.line (.notAllowedInForm statement.describe container.text)
    | none => return
  | _ => return

/-- One child of a form, or the end of the form. -/
def formChild? (levels : Nat) (block : String → Parse Node) : Parse (Option Node) := do
  skipNewlines
  if ← eat (.mark .closeBrace) then
    return none
  let here ← peek
  match here.token with
  | .keyword .branch =>
    let _ ← advance
    let condition ← expressionWithin levels
    let body ← block "form if"
    checkFormBody .branch body
    return some (.branch (← fresh here.line) condition body none)
  | .keyword .loop =>
    let _ ← advance
    let condition ← expressionWithin levels
    let body ← block "form for"
    checkFormBody .loop body
    return some (.loop (← fresh here.line) condition body)
  | .fieldKind _ => return some (← fieldDeclaration)
  | _ => unexpected "a field declaration, 'if' or 'for'" "form declaration"

/-- A form declaration. -/
def formWithin (levels : Nat) (block : String → Parse Node) : Parse Node := do
  let here ← peek
  expectKeyword .form "form declaration"
  let name ← expectIdentifier "form declaration"
  expectMark .openBrace "form declaration"
  let body ← many "form declaration" (formChild? levels block)
  return .form (← fresh here.line) name body

end FormScript.Grammar
