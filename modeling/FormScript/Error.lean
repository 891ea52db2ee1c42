import FormScript.Operator
import FormScript.Value

/-!
# Errors

Each phase of a compilation has its own causes of failure: `LexFault` for reading tokens,
`SyntaxFault` for the grammar, `RuntimeFault` for the run. A cause is `Located` at a source line,
and `Error` is any of the three. The wording stands in the `message` functions alone, the class of
an error in `kind`.
-/

namespace FormScript

/-- The classes of errors that a compilation reports. -/
inductive ErrorKind where
  | lexical
  | grammar
  | name
  | type
  | arithmetic
  | budget
  | internal
  deriving DecidableEq, Repr, Inhabited

/-- The name of a class of errors. -/
def ErrorKind.text : ErrorKind → String
  | lexical => "LexicalError"
  | grammar => "SyntaxError"
  | name => "NameError"
  | type => "TypeError"
  | arithmetic => "ArithmeticError"
  | budget => "BudgetError"
  | internal => "InternalError"

/-- Why no token can be read. -/
inductive LexFault where
  /-- A character that starts no token. -/
  | unexpectedCharacter (c : Char)
  /-- A quote without a closing one. -/
  | unterminatedString
  /-- Half of a two-character operator. -/
  | incompleteOperator (expected : String) (found : Char)
  /-- Digits whose value does not fit in 64 bits. -/
  | integerTooLarge (digits : String)
  deriving DecidableEq, Repr

/-- The wording of a lexical fault. -/
def LexFault.message : LexFault → String
  | unexpectedCharacter c => s!"Unexpected character '{c}'."
  | unterminatedString => "Unterminated string literal."
  | incompleteOperator expected found => s!"Expected '{expected}' but found a single '{found}'."
  | integerTooLarge digits => s!"Integer literal '{digits}' is too large."

/-- Why the tokens do not form a program. -/
inductive SyntaxFault where
  /-- A token that the construct does not admit here. -/
  | unexpectedToken (expected found construct : String)
  /-- The text ends inside the construct. -/
  | unexpectedEnd (construct : String)
  /-- Something follows the program's block. -/
  | trailingInput (found : String)
  /-- A statement that the body of a form's `if` or `for` does not admit. -/
  | notAllowedInForm (statement container : String)
  /-- More nesting than the grammar admits. -/
  | nestingTooDeep (construct : String) (limit : Nat)
  deriving DecidableEq, Repr

/-- The wording of a fault of grammar. -/
def SyntaxFault.message : SyntaxFault → String
  | unexpectedToken expected found construct =>
    s!"Expected {expected} in {construct}, found {found}."
  | unexpectedEnd construct => s!"Unexpected end of input in {construct}."
  | trailingInput found => s!"Expected end of input after the program block, found {found}."
  | notAllowedInForm statement container =>
    s!"{statement} is not allowed inside a form {container}."
  | nestingTooDeep construct limit => s!"{construct} is nested more than {limit} levels deep."

/-- Why a run stops with an error. -/
inductive RuntimeFault where
  /-- A name that no frame binds. -/
  | undeclared (name : String)
  /-- A second declaration of a visible name. -/
  | alreadyDeclared (name : String)
  /-- A variable that has no value yet. -/
  | uninitialized (name : String)
  /-- Two fields of a form under one name. -/
  | duplicateField (form field : String)
  /-- A value of another type than the variable's. -/
  | storeMismatch (name : String) (expected found : Ty)
  /-- An infix operator that does not take these operands. -/
  | unsupportedBinary (op : BinaryOp) (left right : Ty)
  /-- A prefix operator that does not take this operand. -/
  | unsupportedUnary (op : UnaryOp) (operand : Ty)
  /-- A condition that is no truth value. -/
  | conditionNotBool (construct : String) (found : Ty)
  /-- A field property of the wrong shape. -/
  | badProperty (field key details : String)
  | divisionByZero
  /-- A result of `op` outside 64 bits. -/
  | overflow (op : String)
  /-- More loop passes than the budget allows. -/
  | iterationsExceeded (limit : UInt64)
  | timedOut
  | cancelled
  /-- A node where the phase has no use for it. -/
  | unexpectedNode (node phase : String)
  deriving DecidableEq, Repr

namespace RuntimeFault

/-- The class of a runtime fault. -/
def kind : RuntimeFault → ErrorKind
  | undeclared _ | alreadyDeclared _ | uninitialized _ | duplicateField _ _ => .name
  | storeMismatch _ _ _ | unsupportedBinary _ _ _ | unsupportedUnary _ _ | conditionNotBool _ _
  | badProperty _ _ _ => .type
  | divisionByZero | overflow _ => .arithmetic
  | iterationsExceeded _ | timedOut | cancelled => .budget
  | unexpectedNode _ _ => .internal

/-- The wording of a runtime fault. -/
def message : RuntimeFault → String
  | undeclared name => s!"Undeclared variable '{name}'."
  | alreadyDeclared name => s!"Variable '{name}' is already declared."
  | uninitialized name => s!"Variable '{name}' is used before it is initialized."
  | duplicateField form field => s!"Form '{form}' already has a field named '{field}'."
  | storeMismatch name expected found =>
    s!"Cannot store a {found.display} value in '{name}' of type {expected.display}."
  | unsupportedBinary op left right =>
    s!"Operator '{op.text}' is not supported between {left.display} and {right.display}."
  | unsupportedUnary op operand => s!"Operator '{op.text}' cannot be applied to {operand.display}."
  | conditionNotBool construct found =>
    s!"Condition of {construct} must be BOOL, found {found.display}."
  | badProperty field key details => s!"Property '{key}' of field '{field}' {details}."
  | divisionByZero => "Division by zero."
  | overflow op => s!"Integer overflow in '{op}'."
  | iterationsExceeded limit => s!"Iteration budget of {limit} exceeded."
  | timedOut => "Evaluation timed out."
  | cancelled => "Compilation was cancelled."
  | unexpectedNode node phase => s!"Unexpected {node} during {phase}."

end RuntimeFault

/-- A cause of failure at a line of the source. -/
structure Located (ε : Type) where
  line : Nat
  fault : ε
  deriving DecidableEq, Repr

/-- A lexical fault at its line. -/
abbrev LexError := Located LexFault

/-- A runtime fault at its line. -/
abbrev RuntimeError := Located RuntimeFault

/-- A failure to parse: no token could be read, or the tokens do not fit the grammar. -/
inductive ParseError where
  | lexical (e : LexError)
  | grammar (e : Located SyntaxFault)
  deriving DecidableEq, Repr

/-- A failure of a compilation. -/
inductive Error where
  | parse (e : ParseError)
  | runtime (e : RuntimeError)
  deriving DecidableEq, Repr

/-- A message with the line it belongs to. -/
def locatedMessage (line : Nat) (message : String) : String :=
  s!"Error on line {line}: {message}"

namespace Error

/-- A lexical error as an error of a compilation. -/
def ofLex (e : LexError) : Error :=
  .parse (.lexical e)

/-- The class of an error. -/
def kind : Error → ErrorKind
  | parse (.lexical _) => .lexical
  | parse (.grammar _) => .grammar
  | runtime e => e.fault.kind

/-- The source line that an error names. -/
def line : Error → Nat
  | parse (.lexical e) => e.line
  | parse (.grammar e) => e.line
  | runtime e => e.line

/-- The full text of an error. -/
def message : Error → String
  | parse (.lexical e) => locatedMessage e.line e.fault.message
  | parse (.grammar e) => locatedMessage e.line e.fault.message
  | runtime e => locatedMessage e.line e.fault.message

end Error

end FormScript
