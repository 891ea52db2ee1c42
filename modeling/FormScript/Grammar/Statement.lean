import FormScript.Grammar.Form

/-!
# Statements and blocks

The first token of a statement decides its kind, and every kind but a form ends with its line. A
block takes up one level of nesting, so `blockWithin` recurses on the levels that are left; the
rules for statements take the rule for the blocks inside them as an argument.
-/

namespace FormScript.Grammar

open Parse

/-- A line that prints. -/
def printWithin (levels : Nat) : Parse Node := do
  let here ← peek
  expectKeyword .print "Println statement"
  expectMark .openParen "Println statement"
  let expr ← expressionWithin levels
  expectMark .closeParen "Println statement"
  expectNewline "Println statement"
  return .print (← fresh here.line) expr

/-- The start value of a declaration, if it has one. -/
def initWithin (levels : Nat) : Parse (Option Node) := do
  if ← eat (.mark .assign) then
    return some (← expressionWithin levels)
  return none

/-- The declaration of a variable. -/
def declarationWithin (levels : Nat) : Parse Node := do
  let here ← peek
  expectKeyword .declare "variable declaration"
  let name ← expectIdentifier "variable declaration"
  match (← peek).token with
  | .typeName type =>
    let _ ← advance
    let init ← initWithin levels
    expectNewline "variable declaration"
    return .declare (← fresh here.line) name type init
  | _ => unexpected "a type" "variable declaration"

/-- An assignment to a variable. -/
def assignmentWithin (levels : Nat) : Parse Node := do
  let here ← peek
  let name ← expectIdentifier "assignment"
  let target := Node.ident (← fresh here.line) name
  expectMark .assign "assignment"
  let value ← expressionWithin levels
  expectNewline "assignment"
  return .assign (← fresh here.line) target value

/-- A loop, which runs while its condition holds. -/
def loopWithin (levels : Nat) (block : String → Parse Node) : Parse Node := do
  let here ← peek
  expectKeyword .loop "for loop"
  let condition ← expressionWithin levels
  let body ← block "for loop"
  expectNewline "for loop"
  return .loop (← fresh here.line) condition body

/-- The other branch of an `if`, if it has one. -/
def otherwise? (block : String → Parse Node) : Parse (Option Node) := do
  if ← eat (.keyword .otherwise) then
    return some (← block "if statement")
  return none

/-- A branch on a condition. -/
def branchWithin (levels : Nat) (block : String → Parse Node) : Parse Node := do
  let here ← peek
  expectKeyword .branch "if statement"
  let condition ← expressionWithin levels
  let positive ← block "if statement"
  let negative ← otherwise? block
  expectNewline "if statement"
  return .branch (← fresh here.line) condition positive negative

/-- A statement. -/
def statementWithin (levels : Nat) (block : String → Parse Node) : Parse Node := do
  let here ← peek
  match here.token with
  | .keyword .form =>
    let form ← formWithin levels block
    let _ ← eat .newline
    return form
  | .keyword .print => printWithin levels
  | .keyword .declare => declarationWithin levels
  | .identifier _ => assignmentWithin levels
  | .keyword .loop => loopWithin levels block
  | .keyword .branch => branchWithin levels block
  | .newline =>
    let _ ← advance
    return .blank (← fresh here.line)
  | _ => unexpected "a statement" "block"

/-- One line of a block, or the end of the block. -/
def blockItem? (levels : Nat) (block : String → Parse Node) (construct : String) :
    Parse (Option Node) := do
  if ← eat (.mark .closeBrace) then
    return none
  if ← check .endOfInput then
    unexpected "'\x7d'" construct
  else if (← peek).token.isFieldKind then
    return some (← fieldDeclaration)
  else
    return some (← statementWithin levels block)

/-- Statements and fields in braces, as a part of `construct`. -/
def blockWithin : (levels : Nat) → (construct : String) → Parse Node
  | 0, construct => tooDeep construct
  | levels + 1, construct => do
    let here ← peek
    descend
    expectMark .openBrace construct
    expectNewline construct
    let body ← many construct (blockItem? levels (blockWithin levels) construct)
    leave 1
    return .block (← fresh here.line) body

end FormScript.Grammar
