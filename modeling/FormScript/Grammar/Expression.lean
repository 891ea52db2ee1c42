import FormScript.TokenStream

/-!
# Expressions

Five tiers of infix operators, from `||` down to `*` and `/`, stand over the factors. Every operator
groups to the left and takes up one level of nesting until its tier ends, as do prefix operators and
parentheses. `levels` counts the levels that are left, and the rules recurse on it: at zero a rule
that would nest fails.
-/

namespace FormScript.Grammar

open Parse

/-- The tiers of infix operators, the loosest first. -/
inductive Tier where
  | or
  | and
  | relation
  | sum
  | product
  deriving DecidableEq, Repr

namespace Tier

/-- The operator that a token stands for in a tier. -/
def operator? : Tier → Token → Option BinaryOp
  | or, .mark .orOr => some .or
  | and, .mark .andAnd => some .and
  | relation, .mark .equalEqual => some .equal
  | relation, .mark .greater => some .greater
  | relation, .mark .less => some .less
  | sum, .mark .plus => some .add
  | sum, .mark .minus => some .sub
  | product, .mark .star => some .mul
  | product, .mark .slash => some .div
  | _, _ => none

/-- The tiers below, the loosest first. -/
def tighter : Tier → List Tier
  | or => [and, relation, sum, product]
  | and => [relation, sum, product]
  | relation => [sum, product]
  | sum => [product]
  | product => []

end Tier

/-- The prefix operator that a token stands for. -/
def prefixOperator? : Token → Option UnaryOp
  | .mark .plus => some .plus
  | .mark .minus => some .minus
  | .mark .bang => some .not
  | _ => none

/-- An expression of the given tiers, the loosest first, over the factors. `chain` reads the
operators of one tier behind their first operand. -/
def layers (factor : Parse Node) (chain : Tier → Node → Parse Node) : List Tier → Parse Node
  | [] => factor
  | t :: tighter => do
    let first ← layers factor chain tighter
    chain t first

/-- A literal, a name or a read. -/
def atom : Parse Node := do
  let here ← peek
  match here.token with
  | .integer n =>
    let _ ← advance
    return .int (← fresh here.line) n
  | .text content =>
    let _ ← advance
    return .str (← fresh here.line) content
  | .boolean b =>
    let _ ← advance
    return .bool (← fresh here.line) b
  | .identifier name =>
    let _ ← advance
    return .ident (← fresh here.line) name
  | _ =>
    if ← eat (.keyword .scan) then
      expectMark .openParen "Scan call"
      expectMark .closeParen "Scan call"
      return .scan (← fresh here.line)
    else
      unexpected "an expression" "expression"

mutual

/-- An expression in parentheses, a factor behind a prefix operator, or an atom. -/
def factor (levels : Nat) : Parse Node := do
  let here ← peek
  match here.token with
  | .mark .openParen =>
    match levels with
    | 0 => tooDeep "parenthesized expression"
    | levels + 1 =>
      descend
      let _ ← advance
      let inner ← layers (factor levels) (chain levels) (.or :: Tier.or.tighter)
      expectMark .closeParen "expression"
      leave 1
      return inner
  | token =>
    match prefixOperator? token with
    | none => atom
    | some op =>
      match levels with
      | 0 => tooDeep "prefix operator"
      | levels + 1 =>
        descend
        let _ ← advance
        let operand ← factor levels
        leave 1
        return .unary (← fresh here.line) op operand

/-- The operators of a tier behind `left`, each with its right operand. -/
def chain (levels : Nat) (t : Tier) (left : Node) : Parse Node := do
  let here ← peek
  match t.operator? here.token with
  | none => return left
  | some op =>
    match levels with
    | 0 => tooDeep "operator chain"
    | levels + 1 =>
      descend
      let _ ← advance
      let right ← layers (factor levels) (chain levels) t.tighter
      let joined := .binary (← fresh here.line) op left right
      let whole ← chain levels t joined
      leave 1
      return whole

end

/-- An operand and the operators of a tier that follow it. -/
def tier (levels : Nat) (t : Tier) : Parse Node :=
  layers (factor levels) (chain levels) (t :: t.tighter)

/-- An expression, with the given number of levels left. -/
def expressionWithin (levels : Nat) : Parse Node :=
  tier levels .or

end FormScript.Grammar
