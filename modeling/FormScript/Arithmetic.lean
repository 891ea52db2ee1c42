import FormScript.Error

/-!
# Arithmetic, comparison and logic on values

Integers are 64 bits wide and never wrap: an operation computes the exact result and fails if it
does not fit. Division rounds toward negative infinity. Operands of an infix operator have one type;
texts are ordered by their characters and `false` comes before `true`.
-/

namespace FormScript

/-- The 64-bit integer of a value, if it fits. -/
def fit? (n : Int) : Option Int64 :=
  if Int64.minValue.toInt ≤ n ∧ n ≤ Int64.maxValue.toInt then some (Int64.ofInt n) else none

/-- Whether a division has no result: there is none by zero, and one quotient does not fit. -/
def divisionFails (dividend divisor : Int64) : Bool :=
  divisor = 0 || (dividend = Int64.minValue && divisor = -1)

/-- The quotient rounded toward zero, if there is one and it fits. -/
def quotient? (dividend divisor : Int64) : Option Int64 :=
  if divisionFails dividend divisor then none else some (dividend / divisor)

/-- What the quotient rounded toward zero leaves, which has the sign of the dividend. -/
def remainder? (dividend divisor : Int64) : Option Int64 :=
  if divisionFails dividend divisor then none else some (dividend % divisor)

/-- The difference, if it fits. -/
def difference? (left right : Int64) : Option Int64 :=
  fit? (left.toInt - right.toInt)

/-- The quotient rounded toward negative infinity, if there is one and it fits. Rounded toward zero
it is one too large if something is left whose sign is not that of the divisor. -/
def floorDiv? (dividend divisor : Int64) : Option Int64 := do
  let quotient ← quotient? dividend divisor
  let remainder ← remainder? dividend divisor
  if remainder ≠ 0 ∧ (decide (remainder < 0) ≠ decide (divisor < 0)) then
    difference? quotient 1
  else
    return quotient

/-- A result of the operator `op`, or an overflow. -/
def fitted (op : String) : Option Int64 → Except RuntimeFault Int64
  | some n => .ok n
  | none => .error (.overflow op)

/-- An arithmetic operator on integers. -/
def arithmetic (op : BinaryOp) (left right : Int64) : Except RuntimeFault Int64 :=
  match op with
  | .add => fitted op.text (fit? (left.toInt + right.toInt))
  | .sub => fitted op.text (difference? left right)
  | .mul => fitted op.text (fit? (left.toInt * right.toInt))
  | .div => if right = 0 then .error .divisionByZero else fitted op.text (floorDiv? left right)
  | .equal | .greater | .less | .and | .or =>
    .error (.unexpectedNode "non-arithmetic operator" "integer arithmetic")

/-- An infix operator on integers. In logic every integer but zero counts as true. -/
def onInts (op : BinaryOp) (left right : Int64) : Except RuntimeFault Value :=
  match op with
  | .add | .sub | .mul | .div => (arithmetic op left right).map .int
  | .equal => .ok (.bool (left = right))
  | .greater => .ok (.bool (right < left))
  | .less => .ok (.bool (left < right))
  | .and => .ok (.bool (left ≠ 0 ∧ right ≠ 0))
  | .or => .ok (.bool (left ≠ 0 ∨ right ≠ 0))

/-- An infix operator on texts. -/
def onStrings (op : BinaryOp) (left right : String) : Except RuntimeFault Value :=
  match op with
  | .add => .ok (.string (left ++ right))
  | .equal => .ok (.bool (left = right))
  | .greater => .ok (.bool (right < left))
  | .less => .ok (.bool (left < right))
  | .sub | .mul | .div | .and | .or => .error (.unsupportedBinary op .string .string)

/-- An infix operator on truth values. -/
def onBools (op : BinaryOp) (left right : Bool) : Except RuntimeFault Value :=
  match op with
  | .and => .ok (.bool (left && right))
  | .or => .ok (.bool (left || right))
  | .equal => .ok (.bool (left == right))
  | .greater => .ok (.bool (left && !right))
  | .less => .ok (.bool (!left && right))
  | .add | .sub | .mul | .div => .error (.unsupportedBinary op .bool .bool)

/-- The result of an infix operator. -/
def BinaryOp.apply (op : BinaryOp) (left right : Value) : Except RuntimeFault Value :=
  match left, right with
  | .int a, .int b => onInts op a b
  | .string a, .string b => onStrings op a b
  | .bool a, .bool b => onBools op a b
  | _, _ => .error (.unsupportedBinary op left.type right.type)

/-- The result of a prefix operator. A plus sign leaves every value as it is. -/
def UnaryOp.apply (op : UnaryOp) (operand : Value) : Except RuntimeFault Value :=
  match op, operand with
  | .plus, v => .ok v
  | .minus, .int n => (fitted op.text (fit? (-n.toInt))).map .int
  | .not, .bool b => .ok (.bool !b)
  | _, v => .error (.unsupportedUnary op v.type)

/-- The truth value of a condition of `construct`. -/
def Value.condition (construct : String) : Value → Except RuntimeFault Bool
  | .bool b => .ok b
  | v => .error (.conditionNotBool construct v.type)

/-- Names the line of a failure. -/
def locate {α : Type} (line : Nat) : Except RuntimeFault α → Except RuntimeError α :=
  Except.mapError (Located.mk line)

end FormScript
