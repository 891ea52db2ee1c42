import FormScript.Grammar.Statement

/-!
# Programs

The rules of the grammar at the level where a stream stands, the rule for a whole program, and
`parse`, which reads a source text with its comments.
-/

namespace FormScript.Grammar

open Parse

/-- The infix operators of a tier and all tighter ones. -/
def operators (t : Tier) : Parse Node := do
  tier (← levelsLeft) t

/-- An expression. -/
def expression : Parse Node :=
  operators .or

/-- A factor. -/
def plainFactor : Parse Node := do
  factor (← levelsLeft)

/-- A block that is a part of `construct`. -/
def block (construct : String) : Parse Node := do
  blockWithin (← levelsLeft) construct

/-- A statement. -/
def statement : Parse Node := do
  let levels ← levelsLeft
  statementWithin levels (blockWithin levels)

/-- A form declaration. -/
def formDeclaration : Parse Node := do
  let levels ← levelsLeft
  formWithin levels (blockWithin levels)

/-- A whole program: one block, with empty lines around it and nothing else. -/
def program : Parse Node := do
  skipNewlines
  let root ← block "program"
  skipNewlines
  let here ← peek
  if here.token = .endOfInput then
    return root
  else
    fail here.line (.trailingInput here.token.display)

end FormScript.Grammar

namespace FormScript

/-- The tree of a program. -/
def parse (source : String) : Except ParseError Node := do
  let stream ← TokenStream.ofText (Text.stripComments source)
  match Grammar.program stream with
  | .ok root _ => .ok root
  | .error e _ => .error e

end FormScript
