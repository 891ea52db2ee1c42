import FormScript.Proofs.Plan

/-!
# Types without values

Which type the value of an expression has, and which error its evaluation ends with, is known before
any value is: `Node.inferType` computes both from the types of the visible variables and from which
of them have a value (`Scopes.outline`). An evaluation follows it in scopes whose values have the
types of their variables, unless it ends with an error of arithmetic, which values alone decide
(`Node.eval_foretold`). Scopes with the same outline therefore give an expression values of one type
or one and the same error (`eval_type_independent_of_values`).
-/

namespace FormScript

/-! ## What is known without values -/

/-- What is known of a variable without its value. -/
structure Outline where
  type : Ty
  initialized : Bool
  deriving DecidableEq

/-- A variable without its value. -/
def Variable.outline (v : Variable) : Outline :=
  ⟨v.type, v.value.isSome⟩

/-- The visible variables without their values. -/
def Scopes.outline (s : Scopes) (name : String) : Option Outline :=
  (s.get? name).map Variable.outline

/-- Every value that is visible has the declared type of its variable. -/
def Scopes.ValuesTyped (s : Scopes) : Prop :=
  ∀ name v value, s.get? name = some v → v.value = some value → value.type = v.type

/-- The type of what a name stands for, or the fault of reading it. -/
def readType (known : String → Option Outline) (name : String) : Except RuntimeFault Ty :=
  match known name with
  | some ⟨type, true⟩ => .ok type
  | some ⟨_, false⟩ => .error (.uninitialized name)
  | none => .error (.undeclared name)

/-- The type of what a prefix operator gives. -/
def UnaryOp.resultType (op : UnaryOp) (operand : Ty) : Except RuntimeFault Ty :=
  match op, operand with
  | .plus, type => .ok type
  | .minus, .int => .ok .int
  | .not, .bool => .ok .bool
  | _, type => .error (.unsupportedUnary op type)

/-- The type of what an infix operator gives. Operands have one type; comparisons and logic give
truth values, and logic is not for texts, arithmetic not for truth values. -/
def BinaryOp.resultType (op : BinaryOp) (left right : Ty) : Except RuntimeFault Ty :=
  match left, right, op with
  | .int, .int, .add | .int, .int, .sub | .int, .int, .mul | .int, .int, .div => .ok .int
  | .int, .int, _ => .ok .bool
  | .string, .string, .add => .ok .string
  | .string, .string, .equal | .string, .string, .greater | .string, .string, .less => .ok .bool
  | .bool, .bool, .equal | .bool, .bool, .greater | .bool, .bool, .less | .bool, .bool, .and
  | .bool, .bool, .or => .ok .bool
  | _, _, _ => .error (.unsupportedBinary op left right)

/-- The type of an expression, or the error that its evaluation ends with. -/
def Node.inferType (known : String → Option Outline) : Node → Except RuntimeError Ty
  | .int _ _ | .scan _ => .ok .int
  | .str _ _ => .ok .string
  | .bool _ _ => .ok .bool
  | .ident o name => locate o.line (readType known name)
  | .unary o op operand => do
    let type ← operand.inferType known
    locate o.line (op.resultType type)
  | .binary o op left right => do
    let l ← left.inferType known
    let r ← right.inferType known
    locate o.line (op.resultType l r)
  | n => .error ⟨n.line, .unexpectedNode n.describe "expression evaluation"⟩

/-! ## Evaluation follows the types -/

/-- An outcome has the type or the error that is expected, unless it is one of the exempted
errors. -/
def Foretold {ε : Type} (exempt : ε → Prop) (expected : Except ε Ty)
    (outcome : Except ε Value) : Prop :=
  outcome.map Value.type = expected ∨ ∃ e, outcome = .error e ∧ exempt e

/-- A fault of arithmetic. -/
def RuntimeFault.IsArithmetic (fault : RuntimeFault) : Prop :=
  fault.kind = .arithmetic

namespace Foretold

variable {ε : Type} {exempt : ε → Prop} {expected : Except ε Ty} {outcome : Except ε Value}

/-- What is foretold of two steps is foretold of both together. -/
theorem bind {f : Ty → Except ε Ty} {g : Value → Except ε Value}
    (h : Foretold exempt expected outcome) (hf : ∀ v, Foretold exempt (f v.type) (g v)) :
    Foretold exempt (expected >>= f) (outcome >>= g) := by
  rcases h with rfl | ⟨e, rfl, he⟩
  · cases outcome with
    | ok v => exact hf v
    | error e => exact .inl rfl
  · exact .inr ⟨e, rfl, he⟩

/-- What is foretold of a fault is foretold of it at its line. -/
theorem locate {expected : Except RuntimeFault Ty} {outcome : Except RuntimeFault Value}
    (line : Nat) (h : Foretold RuntimeFault.IsArithmetic expected outcome) :
    Foretold (fun e => e.fault.IsArithmetic) (locate line expected) (locate line outcome) := by
  rcases h with rfl | ⟨fault, rfl, hfault⟩
  · refine .inl ?_
    cases outcome <;> rfl
  · exact .inr ⟨⟨line, fault⟩, rfl, hfault⟩

end Foretold

/-- What reading a name gives is foretold by the declared types. -/
theorem Scopes.value_foretold {s : Scopes} (hs : s.ValuesTyped) (name : String) :
    Foretold RuntimeFault.IsArithmetic (readType s.outline name) (s.value name) := by
  refine .inl ?_
  unfold readType outline value get
  cases hv : s.get? name with
  | none => rfl
  | some v =>
    obtain ⟨type, value⟩ := v
    cases value with
    | none => rfl
    | some value => exact congrArg Except.ok (hs name _ value hv rfl)

/-- A result that may be too large is an integer or an overflow. -/
theorem fitted_foretold (op : String) (n : Option Int64) :
    Foretold RuntimeFault.IsArithmetic (.ok .int) ((fitted op n).map Value.int) := by
  cases n with
  | some n => exact .inl rfl
  | none => exact .inr ⟨.overflow op, rfl, rfl⟩

/-- What a prefix operator gives is foretold by the type of its operand. -/
theorem UnaryOp.apply_foretold (op : UnaryOp) (v : Value) :
    Foretold RuntimeFault.IsArithmetic (op.resultType v.type) (op.apply v) := by
  cases op with
  | plus => exact .inl rfl
  | minus =>
    cases v with
    | int n => exact fitted_foretold _ _
    | string | bool => exact .inl rfl
  | not => cases v <;> exact .inl rfl

/-- What an operator on integers gives is foretold, faults of arithmetic apart. -/
theorem onInts_foretold (op : BinaryOp) (left right : Int64) :
    Foretold RuntimeFault.IsArithmetic (op.resultType .int .int) (onInts op left right) := by
  cases op with
  | add | sub | mul => exact fitted_foretold _ _
  | div =>
    rw [onInts, arithmetic]
    split
    · exact .inr ⟨.divisionByZero, rfl, rfl⟩
    · exact fitted_foretold _ _
  | _ => exact .inl rfl

/-- What an infix operator gives is foretold by the types of its operands. -/
theorem BinaryOp.apply_foretold (op : BinaryOp) (l r : Value) :
    Foretold RuntimeFault.IsArithmetic (op.resultType l.type r.type) (op.apply l r) := by
  cases l <;> cases r
  case int.int a b => exact onInts_foretold op a b
  all_goals exact .inl (by cases op <;> rfl)

/-- The evaluation of an expression ends with the type or the error that is inferred for it, or with
an error of arithmetic. -/
theorem Node.eval_foretold {s : Scopes} (hs : s.ValuesTyped) (n : Node) :
    Foretold (fun e => e.fault.IsArithmetic) (n.inferType s.outline) (n.eval s) := by
  match n with
  | .int _ _ | .str _ _ | .bool _ _ | .scan _ => exact .inl rfl
  | .ident o name => exact (Scopes.value_foretold hs name).locate o.line
  | .unary o op operand =>
    exact (operand.eval_foretold hs).bind fun v => (op.apply_foretold v).locate o.line
  | .binary o op left right =>
    refine (left.eval_foretold hs).bind fun l => (right.eval_foretold hs).bind fun r => ?_
    exact (op.apply_foretold l r).locate o.line
  | .block _ _ | .assign _ _ _ | .declare _ _ _ _ | .branch _ _ _ _ | .loop _ _ _ | .print _ _
  | .field _ _ _ _ | .scalar _ _ _ | .array _ _ _ | .form _ _ _ | .blank _ => exact .inl rfl

/-! ## Two evaluations -/

namespace Run

variable {n : Node} {m : Machine}

/-- A run that evaluates an expression gives its value and changes nothing. -/
theorem eval_of_ok {v : Value} (h : n.eval m.scopes = .ok v) : eval n m = .ok v m := by
  change ofExcept (n.eval m.scopes) m = _
  rw [h]
  rfl

/-- A run that evaluates an expression stops with its error and changes nothing. -/
theorem eval_of_error {e : RuntimeError} (h : n.eval m.scopes = .error e) :
    eval n m = .error (.error e) m := by
  change ofExcept (n.eval m.scopes) m = _
  rw [h]
  rfl

/-- An evaluation without an error of arithmetic ends as its types say. -/
theorem eval_map_type (hs : m.scopes.ValuesTyped)
    (h : ∀ e m₁, eval n m = .error (.error e) m₁ → e.fault.kind ≠ .arithmetic) :
    (n.eval m.scopes).map Value.type = n.inferType m.scopes.outline := by
  rcases n.eval_foretold hs with hforetold | ⟨e, he, harithmetic⟩
  · exact hforetold
  · exact absurd harithmetic (h e m (eval_of_error he))

end Run

/-- Where the same names are visible with the same types, the same of them have values and all
values have their declared types, two evaluations of one tree without an error of arithmetic give
values of one type, or end with the same error. -/
theorem eval_type_independent_of_values (n : Node) {m m' : Machine}
    (houtline : ∀ name, m.scopes.outline name = m'.scopes.outline name)
    (hs : m.scopes.ValuesTyped) (hs' : m'.scopes.ValuesTyped)
    (h : ∀ e m₁, Run.eval n m = .error (.error e) m₁ → e.fault.kind ≠ .arithmetic)
    (h' : ∀ e m₁, Run.eval n m' = .error (.error e) m₁ → e.fault.kind ≠ .arithmetic) :
    (∃ v v', Run.eval n m = .ok v m ∧ Run.eval n m' = .ok v' m' ∧ v.type = v'.type) ∨
    ∃ e, Run.eval n m = .error (.error e) m ∧ Run.eval n m' = .error (.error e) m' := by
  have hsame : (n.eval m.scopes).map Value.type = (n.eval m'.scopes).map Value.type := by
    rw [Run.eval_map_type hs h, Run.eval_map_type hs' h', funext houtline]
  cases hv : n.eval m.scopes with
  | ok v =>
    cases hv' : n.eval m'.scopes with
    | ok v' =>
      rw [hv, hv'] at hsame
      exact .inl ⟨v, v', Run.eval_of_ok hv, Run.eval_of_ok hv', Except.ok.inj hsame⟩
    | error e' =>
      rw [hv, hv'] at hsame
      cases hsame
  | error e =>
    cases hv' : n.eval m'.scopes with
    | ok v' =>
      rw [hv, hv'] at hsame
      cases hsame
    | error e' =>
      rw [hv, hv'] at hsame
      cases hsame
      exact .inr ⟨e, Run.eval_of_error hv, Run.eval_of_error hv'⟩

namespace Sample

/-- A machine in which a variable holds an integer. -/
def holding (k : Int64) : Machine :=
  { Machine.start .unbounded .off with scopes := ⟨⟨[("x", ⟨.int, some (.int k)⟩)]⟩, []⟩ }

/-- The comparison `10 / x < 3`. -/
def quotientLess : Node :=
  .binary ⟨4, 1⟩ .less (.binary ⟨2, 1⟩ .div (.int ⟨0, 1⟩ 10) (.ident ⟨1, 1⟩ "x")) (.int ⟨3, 1⟩ 3)

/-- The only variable that is visible is `x`. -/
theorem get?_holding (k : Int64) (name : String) :
    (holding k).scopes.get? name = if "x" = name then some ⟨.int, some (.int k)⟩ else none := by
  by_cases hname : "x" = name <;>
    simp [holding, Machine.start, Scopes.get?, Frame.get?, Keyed.find?, hname]

/-- The value that is held makes no difference to what is known without it. -/
theorem outline_holding (k l : Int64) (name : String) :
    (holding k).scopes.outline name = (holding l).scopes.outline name := by
  rw [Scopes.outline, Scopes.outline, get?_holding, get?_holding]
  split <;> rfl

/-- The value that is held has the type of its variable. -/
theorem valuesTyped_holding (k : Int64) : (holding k).scopes.ValuesTyped := by
  intro name v value hv hvalue
  rw [get?_holding] at hv
  split at hv
  · cases hv
    cases hvalue
    rfl
  · cases hv

end Sample

open Sample in
/-- A comparison that is true for one value of a variable and false for another one. -/
theorem quotientLess_type_independent_of_values :
    Run.eval quotientLess (holding 2) = .ok (.bool false) (holding 2) ∧
    Run.eval quotientLess (holding 5) = .ok (.bool true) (holding 5) ∧
    ((∃ v v', Run.eval quotientLess (holding 2) = .ok v (holding 2) ∧
      Run.eval quotientLess (holding 5) = .ok v' (holding 5) ∧ v.type = v'.type) ∨
    ∃ e, Run.eval quotientLess (holding 2) = .error (.error e) (holding 2) ∧
      Run.eval quotientLess (holding 5) = .error (.error e) (holding 5)) := by
  have h₂ : Run.eval quotientLess (holding 2) = .ok (.bool false) (holding 2) := Run.eval_of_ok rfl
  have h₅ : Run.eval quotientLess (holding 5) = .ok (.bool true) (holding 5) := Run.eval_of_ok rfl
  refine ⟨h₂, h₅, eval_type_independent_of_values quotientLess (outline_holding 2 5)
    (valuesTyped_holding 2) (valuesTyped_holding 5) (fun e m₁ he => ?_) fun e m₁ he => ?_⟩
  · cases h₂.symm.trans he
  · cases h₅.symm.trans he

end FormScript
