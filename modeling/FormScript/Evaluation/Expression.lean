import FormScript.Machine

/-!
# Expressions

The value of an expression depends on the visible variables alone. Operands are evaluated from left
to right and the first failure is the answer.
-/

namespace FormScript

/-- The value of an expression. -/
def Node.eval (scopes : Scopes) : Node → Except RuntimeError Value
  | .int _ n => .ok (.int n)
  | .str _ s => .ok (.string s)
  | .bool _ b => .ok (.bool b)
  | .ident o name => locate o.line (scopes.value name)
  | .unary o op operand => do
    let v ← operand.eval scopes
    locate o.line (op.apply v)
  | .binary o op left right => do
    let l ← left.eval scopes
    let r ← right.eval scopes
    locate o.line (op.apply l r)
  | .scan _ => .ok (.int 0)
  | n => .error ⟨n.line, .unexpectedNode n.describe "expression evaluation"⟩

/-- Whether a condition of `construct` holds. -/
def Node.holds (scopes : Scopes) (construct : String) (condition : Node) :
    Except RuntimeError Bool := do
  let v ← condition.eval scopes
  locate condition.line (v.condition construct)

namespace Run

/-- The value of an expression in the current scopes. -/
def eval (n : Node) : Run Value := do
  ofExcept (n.eval (← get).scopes)

/-- Whether a condition holds in the current scopes. -/
def holds (construct : String) (condition : Node) : Run Bool := do
  ofExcept (condition.holds (← get).scopes construct)

end Run

end FormScript
