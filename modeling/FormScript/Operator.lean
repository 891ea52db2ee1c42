/-!
# Operators

The prefix and infix operators of expressions and the texts that write them.
-/

namespace FormScript

/-- An operator in front of its operand. -/
inductive UnaryOp where
  | plus
  | minus
  | not
  deriving DecidableEq, Repr, Inhabited

/-- The text of a prefix operator. -/
def UnaryOp.text : UnaryOp → String
  | plus => "+"
  | minus => "-"
  | not => "!"

/-- An operator between its operands. -/
inductive BinaryOp where
  | add
  | sub
  | mul
  | div
  | equal
  | greater
  | less
  | and
  | or
  deriving DecidableEq, Repr, Inhabited

/-- The text of an infix operator. -/
def BinaryOp.text : BinaryOp → String
  | add => "+"
  | sub => "-"
  | mul => "*"
  | div => "/"
  | equal => "=="
  | greater => ">"
  | less => "<"
  | and => "&&"
  | or => "||"

end FormScript
