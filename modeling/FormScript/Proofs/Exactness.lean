import Mathlib.Data.Rat.Floor
import FormScript.Evaluation.Expression

/-!
# Exact integer arithmetic

The operators of arithmetic compute with 64 bits what the unbounded integers say, or fail.
`Node.exact` is the value of an expression over all integers, with quotients rounded down, and
`Node.fault?` what is wrong with an operator: its divisor is zero, or its result needs more than 64
bits. An evaluation goes through the operators in the order of `Node.operators`, operands first, and
the first one with a fault decides (`Node.eval_computes`). So an expression without a fault has its
exact value, and any other fails at the first fault it has (`integer_expressions_exact`).

Division rounds toward zero first and corrects the quotient where something is left of the other
sign (`floorDiv?`). That these steps round down, and fail for no other operands than the two pairs
without a quotient of 64 bits, is `toInt_of_floorDiv?` and `floorDiv?_eq_none_iff`.
-/

namespace FormScript

/-! ## Over all integers -/

/-- An expression of integers, signs and the four operators of arithmetic. -/
inductive Node.IsArithmetic : Node → Prop where
  | int (o : Origin) (k : Int64) : IsArithmetic (.int o k)
  | unary {n : Node} (o : Origin) {op : UnaryOp} (sign : op ∈ [UnaryOp.plus, .minus])
      (operand : IsArithmetic n) :
    IsArithmetic (.unary o op n)
  | binary {left right : Node} (o : Origin) {op : BinaryOp}
      (sign : op ∈ [BinaryOp.add, .sub, .mul, .div])
      (hleft : IsArithmetic left) (hright : IsArithmetic right) :
    IsArithmetic (.binary o op left right)

/-- What a sign makes of an integer. -/
def UnaryOp.exact : UnaryOp → ℤ → ℤ
  | minus, x => -x
  | _, x => x

/-- What an operator of arithmetic makes of two integers. -/
def BinaryOp.exact : BinaryOp → ℤ → ℤ → ℤ
  | add, x, y => x + y
  | sub, x, y => x - y
  | mul, x, y => x * y
  | div, x, y => ⌊(x : ℚ) / y⌋
  | _, _, _ => 0

/-- The integers of 64 bits. -/
def InRange (x : ℤ) : Prop :=
  -2 ^ 63 ≤ x ∧ x ≤ 2 ^ 63 - 1

instance (x : ℤ) : Decidable (InRange x) :=
  inferInstanceAs (Decidable (_ ∧ _))

namespace Node

/-- The value of an expression over all integers. -/
def exact : Node → ℤ
  | .int _ k => k.toInt
  | .unary _ op operand => op.exact operand.exact
  | .binary _ op left right => op.exact left.exact right.exact
  | _ => 0

/-- The operators of an expression from left to right, each behind its operands. -/
def operators : Node → List Node
  | n@(.unary _ _ operand) => operand.operators ++ [n]
  | n@(.binary _ _ left right) => left.operators ++ right.operators ++ [n]
  | _ => []

/-- What is wrong with an operator, given the exact values of its operands. -/
def fault? : Node → Option RuntimeFault
  | .unary _ op operand =>
    if InRange (op.exact operand.exact) then none else some (.overflow op.text)
  | .binary _ op left right =>
    if op = .div ∧ right.exact = 0 then some .divisionByZero
    else if InRange (op.exact left.exact right.exact) then none else some (.overflow op.text)
  | _ => none

/-- The fault of an operator at its line. -/
def error? (n : Node) : Option RuntimeError :=
  n.fault?.map (Located.mk n.line)

end Node

/-! ## One operator -/

/-- An outcome is the given error, or the given integer if there is none. -/
def Computes (error : Option RuntimeError) (x : ℤ) (outcome : Except RuntimeError Value) : Prop :=
  match error with
  | none => ∃ k : Int64, outcome = .ok (.int k) ∧ k.toInt = x
  | some e => outcome = .error e

/-- The integers of the program are in range. -/
theorem inRange_toInt (k : Int64) : InRange k.toInt :=
  ⟨k.le_toInt, Int.le_sub_one_of_lt k.toInt_lt⟩

/-- Only zero stands for zero. -/
theorem toInt_ne_zero {k : Int64} (h : k ≠ 0) : k.toInt ≠ 0 :=
  fun hzero => h (Int64.toInt_inj.1 (hzero.trans Int64.toInt_zero.symm))

/-- What is in range fits, and stands for itself. -/
theorem fit?_of_inRange {x : ℤ} (h : InRange x) : ∃ k, fit? x = some k ∧ k.toInt = x := by
  refine ⟨Int64.ofInt x, ?_, Int64.toInt_ofInt_of_le h.1 (Int.lt_of_le_sub_one h.2)⟩
  rw [fit?, Int64.toInt_minValue, Int64.toInt_maxValue]
  exact if_pos h

/-- What is out of range does not fit. -/
theorem fit?_of_not_inRange {x : ℤ} (h : ¬ InRange x) : fit? x = none := by
  rw [fit?, Int64.toInt_minValue, Int64.toInt_maxValue]
  exact if_neg h

/-- A result that fits is exact, and any other is an overflow. -/
theorem fitted_computes (line : Nat) (op : String) (x : ℤ) :
    Computes ((if InRange x then none else some (.overflow op)).map (Located.mk line)) x
      (locate line ((fitted op (fit? x)).map Value.int)) := by
  split
  next h =>
    obtain ⟨k, hk, hx⟩ := fit?_of_inRange h
    rw [hk]
    exact ⟨k, rfl, hx⟩
  next h =>
    rw [fit?_of_not_inRange h]
    rfl

/-- An integer of 64 bits fits. -/
theorem fit?_toInt (k : Int64) : fit? k.toInt = some k := by
  obtain ⟨l, hl, heq⟩ := fit?_of_inRange (inRange_toInt k)
  rw [hl, Int64.toInt_inj.1 heq]

/-- Rounded down a quotient is one less than rounded toward zero, if something is left whose sign is
not that of the divisor. -/
theorem fdiv_eq_tdiv_sub (x : ℤ) {y : ℤ} (hy : y ≠ 0) :
    x.fdiv y = x.tdiv y -
      if x.tmod y ≠ 0 ∧ decide (x.tmod y < 0) ≠ decide (y < 0) then 1 else 0 := by
  rw [Int.fdiv_eq_tdiv]
  by_cases hdvd : y ∣ x
  · simp [hdvd, Int.tmod_eq_zero_of_dvd hdvd]
  · have hleft : x.tmod y ≠ 0 := fun h => hdvd (Int.dvd_of_tmod_eq_zero h)
    -- What is left has the sign of the dividend.
    rcases lt_or_ge x 0 with hx | hx
    · have hturned : 0 ≤ (-x).tmod y := Int.tmod_nonneg y (by omega)
      rw [Int.neg_tmod] at hturned
      have hsign : x.tmod y < 0 := by omega
      rcases hy.lt_or_gt with hneg | hpos
      · simp [hdvd, hsign, not_le.2 hx, hneg, not_le.2 hneg, Int.sign_eq_neg_one_of_neg hneg]
      · simp [hdvd, hsign, hleft, hx, hpos.le, Int.sign_eq_one_of_pos hpos]
    · have hsign : ¬ x.tmod y < 0 := not_lt.2 (Int.tmod_nonneg y hx)
      rcases hy.lt_or_gt with hneg | hpos
      · simp [hdvd, hsign, hleft, hx, hneg]
      · simp [hdvd, hsign, hx, hpos.le, not_lt.2 hpos.le]

/-- The steps of a division that rounds down give the quotient over all integers, if it fits. -/
theorem floorDiv?_eq {a b : Int64} (hb : b ≠ 0) :
    floorDiv? a b = fit? (a.toInt.fdiv b.toInt) := by
  by_cases hfails : a = Int64.minValue ∧ b = -1
  · obtain ⟨rfl, rfl⟩ := hfails
    decide +kernel
  have hdivides : divisionFails a b = false := by
    simp only [divisionFails, hb, decide_false, Bool.false_or, Bool.and_eq_false_imp,
      decide_eq_true_eq, decide_eq_false_iff_not]
    exact not_and.1 hfails
  have hquotient : (a / b).toInt = a.toInt.tdiv b.toInt := by
    rcases not_and_or.1 hfails with ha | hb
    · exact Int64.toInt_div_of_ne_left a b ha
    · exact Int64.toInt_div_of_ne_right a b hb
  have hleft : a % b ≠ 0 ↔ a.toInt.tmod b.toInt ≠ 0 := by
    rw [← Int64.toInt_mod, ← Int64.toInt_zero, ne_eq, ne_eq, Int64.toInt_inj]
  have hsign : ∀ k : Int64, decide (k < 0) = decide (k.toInt < 0) := fun k =>
    decide_eq_decide.2 Int64.lt_iff_toInt_lt
  simp only [floorDiv?, quotient?, remainder?, hdivides, Bool.false_eq_true, if_false,
    Option.bind_eq_bind, Option.bind_some, difference?, hquotient, hleft, hsign, Int64.toInt_mod,
    Int64.toInt_one]
  rw [fdiv_eq_tdiv_sub _ (toInt_ne_zero hb)]
  split
  · rfl
  · rw [Int.sub_zero, ← hquotient, fit?_toInt]
    rfl

/-- The quotient rounded down, on integers of both signs. -/
theorem floor_div_eq_fdiv (x y : ℤ) : ⌊(x : ℚ) / y⌋ = x.fdiv y := by
  have hpos : ∀ {x y : ℤ}, 0 ≤ y → ⌊(x : ℚ) / y⌋ = x.fdiv y := by
    intro x y hy
    rw [Int.floor_div_cast_of_nonneg hy, Int.floor_intCast, Int.fdiv_eq_ediv_of_nonneg x hy]
  rcases le_total 0 y with hy | hy
  · exact hpos hy
  · have hneg := hpos (x := -x) (Int.neg_nonneg_of_nonpos hy)
    rwa [Int.cast_neg, Int.cast_neg, neg_div_neg_eq, Int.neg_fdiv_neg] at hneg

/-- A sign gives the exact value, or reports an overflow where that is out of range. -/
theorem UnaryOp.apply_computes {op : UnaryOp} (sign : op ∈ [UnaryOp.plus, .minus])
    (line : Nat) (k : Int64) :
    Computes ((if InRange (op.exact k.toInt) then none else some (.overflow op.text)).map
      (Located.mk line))
      (op.exact k.toInt) (locate line (op.apply (.int k))) := by
  cases op with
  | plus =>
    -- A plus sign changes nothing, so its result is in range.
    rw [if_pos (show InRange (UnaryOp.plus.exact k.toInt) from inRange_toInt k)]
    exact ⟨k, rfl, rfl⟩
  | minus => exact fitted_computes line _ _
  | not => simp at sign

/-- An operator gives the exact value, or reports a division by zero or an overflow. -/
theorem BinaryOp.apply_computes {op : BinaryOp} (sign : op ∈ [BinaryOp.add, .sub, .mul, .div])
    (line : Nat) (k l : Int64) :
    Computes ((if op = .div ∧ l.toInt = 0 then some .divisionByZero
      else if InRange (op.exact k.toInt l.toInt) then none else some (.overflow op.text)).map
        (Located.mk line))
      (op.exact k.toInt l.toInt) (locate line (op.apply (.int k) (.int l))) := by
  cases op with
  | add | sub | mul => exact fitted_computes line _ _
  | div =>
    change Computes _ _ (locate line ((arithmetic .div k l).map Value.int))
    rw [arithmetic]
    by_cases hl : l = 0
    · rw [if_pos hl, if_pos ⟨rfl, hl ▸ Int64.toInt_zero⟩]
      rfl
    · rw [if_neg hl, if_neg fun h => toInt_ne_zero hl h.2, floorDiv?_eq hl, BinaryOp.exact,
        floor_div_eq_fdiv]
      exact fitted_computes line _ _
  | equal | greater | less | and | or => simp at sign

/-! ## Whole expressions -/

/-- What goes on behind an outcome computes with its integer, and an earlier error comes first. -/
theorem Computes.bind {error error' : Option RuntimeError} {x y : ℤ}
    {outcome : Except RuntimeError Value} {f : Value → Except RuntimeError Value}
    (h : Computes error x outcome)
    (hf : ∀ k : Int64, k.toInt = x → Computes error' y (f (.int k))) :
    Computes (error.or error') y (outcome >>= f) := by
  cases error with
  | none =>
    obtain ⟨k, rfl, hk⟩ := h
    exact hf k hk
  | some e =>
    obtain rfl : outcome = .error e := h
    rfl

/-- The evaluation of an expression ends with the first error of its operators, or with its exact
value. -/
theorem Node.eval_computes (s : Scopes) {n : Node} (h : n.IsArithmetic) :
    Computes (n.operators.findSome? error?) n.exact (n.eval s) := by
  induction h with
  | int o k => exact ⟨k, rfl, rfl⟩
  | @unary n o op sign operand ih =>
    rw [operators, List.findSome?_append, List.findSome?_singleton]
    refine ih.bind fun k hk => ?_
    rw [error?, fault?, exact, ← hk]
    exact op.apply_computes sign o.line k
  | @binary left right o op sign _ _ ihl ihr =>
    rw [operators, List.findSome?_append, List.findSome?_append, List.findSome?_singleton,
      Option.or_assoc]
    refine ihl.bind fun k hk => ihr.bind fun l hl => ?_
    rw [error?, fault?, exact, ← hk, ← hl]
    exact op.apply_computes sign o.line k l

/-! ## Quotients -/

/-- A quotient is in range if the dividend is between bounds that many times as large. -/
theorem inRange_ediv {x d : ℤ} (hd : 0 < d) (hlow : -2 ^ 63 ≤ x) (hhigh : x < 2 ^ 63 * d) :
    InRange (x / d) := by
  constructor
  · rw [Int.le_ediv_iff_mul_le hd]
    omega
  · exact Int.le_sub_one_of_lt ((Int.ediv_lt_iff_lt_mul hd).2 hhigh)

/-- Two integers of 64 bits have a quotient of 64 bits, unless they are the least one and minus
one. -/
theorem inRange_fdiv {x y : ℤ} (hx : InRange x) (hy : y ≠ 0) (h : ¬ (x = -2 ^ 63 ∧ y = -1)) :
    InRange (x.fdiv y) := by
  obtain ⟨hlow, hhigh⟩ := hx
  rcases Int.lt_or_gt_of_ne hy with hneg | hpos
  · -- Both signs are turned, and only then the dividend can be as large as the divisor allows.
    rw [← Int.neg_fdiv_neg, Int.fdiv_eq_ediv_of_nonneg _ (by omega)]
    exact inRange_ediv (by omega) (by omega) (by omega)
  · rw [Int.fdiv_eq_ediv_of_nonneg _ (by omega)]
    exact inRange_ediv hpos hlow (by omega)

/-- There is no quotient by zero, and none of the least integer by `-1`. -/
theorem floorDiv?_eq_none_iff (a b : Int64) :
    floorDiv? a b = none ↔ b = 0 ∨ a = Int64.minValue ∧ b = -1 := by
  by_cases hb : b = 0
  · simp [floorDiv?, quotient?, divisionFails, hb]
  rw [floorDiv?_eq hb]
  constructor
  · intro hnone
    by_contra h
    rw [not_or] at h
    have hleast : ¬ (a.toInt = -2 ^ 63 ∧ b.toInt = -1) := by
      rintro ⟨ha, hb'⟩
      exact h.2 ⟨Int64.toInt_inj.1 ha, Int64.toInt_inj.1 hb'⟩
    obtain ⟨k, hk, -⟩ := fit?_of_inRange (inRange_fdiv (inRange_toInt a) (toInt_ne_zero hb) hleast)
    cases hk.symm.trans hnone
  · rintro (hzero | ⟨rfl, rfl⟩)
    · exact absurd hzero hb
    · rfl

/-- A quotient is the rational one, rounded down. -/
theorem toInt_of_floorDiv? {a b q : Int64} (h : floorDiv? a b = some q) :
    q.toInt = ⌊(a.toInt : ℚ) / b.toInt⌋ := by
  have hb : b ≠ 0 := fun hb => by
    cases h.symm.trans ((floorDiv?_eq_none_iff a b).2 (.inl hb))
  rw [floorDiv?_eq hb] at h
  by_cases hrange : InRange (a.toInt.fdiv b.toInt)
  · obtain ⟨k, hk, hx⟩ := fit?_of_inRange hrange
    cases hk.symm.trans h
    rw [hx, floor_div_eq_fdiv]
  · cases (fit?_of_not_inRange hrange).symm.trans h

/-- An expression of integers, signs and the four operators of arithmetic has its value over all
integers, if no divisor is zero and every result is in range. Otherwise its evaluation ends with the
fault of the first operator that has one, from left to right and operands first, at the line of that
operator. The quotient rounded down is missing for a divisor of zero and for the least integer by
minus one only. -/
theorem integer_expressions_exact (s : Scopes) {n : Node} (h : n.IsArithmetic) :
    ((∀ f ∈ n.operators, f.fault? = none) → ∃ k : Int64, n.eval s = .ok (.int k) ∧
      k.toInt = n.exact) ∧
    (∀ before f after fault, n.operators = before ++ f :: after → (∀ g ∈ before, g.fault? = none) →
      f.fault? = some fault → n.eval s = .error ⟨f.line, fault⟩) ∧
    ∀ a b : Int64, (floorDiv? a b = none ↔ b = 0 ∨ a = Int64.minValue ∧ b = -1) ∧
      ∀ q, floorDiv? a b = some q → q.toInt = ⌊(a.toInt : ℚ) / b.toInt⌋ := by
  have hcomputes := Node.eval_computes s h
  refine ⟨fun hall => ?_, fun before f after fault hoperators hbefore hfault => ?_,
    fun a b => ⟨floorDiv?_eq_none_iff a b, fun q => toInt_of_floorDiv?⟩⟩
  · have hnone : n.operators.findSome? Node.error? = none := by
      refine List.findSome?_eq_none_iff.2 fun f hf => ?_
      rw [Node.error?, hall f hf]
      rfl
    rwa [hnone] at hcomputes
  · have hsome : n.operators.findSome? Node.error? = some ⟨f.line, fault⟩ := by
      refine List.findSome?_eq_some_iff.2 ⟨before, f, after, hoperators, ?_, fun g hg => ?_⟩
      · rw [Node.error?, hfault]
        rfl
      · rw [Node.error?, hbefore g hg]
        rfl
    rwa [hsome] at hcomputes

namespace Sample

/-- The quotient `-7 / 2`. -/
def quotient : Node :=
  .binary ⟨3, 1⟩ .div (.unary ⟨1, 1⟩ .minus (.int ⟨0, 1⟩ 7)) (.int ⟨2, 1⟩ 2)

/-- A product that is too large, divided by zero on the next line. -/
def product : Node :=
  .binary ⟨4, 2⟩ .div (.binary ⟨2, 1⟩ .mul (.int ⟨0, 1⟩ 2) (.int ⟨1, 1⟩ 9223372036854775807))
    (.int ⟨3, 2⟩ 0)

/-- The sample quotient is an expression of arithmetic. -/
theorem quotient_isArithmetic : quotient.IsArithmetic :=
  .binary _ (by decide) (.unary _ (by decide) (.int _ _)) (.int _ _)

/-- The sample product is an expression of arithmetic. -/
theorem product_isArithmetic : product.IsArithmetic :=
  .binary _ (by decide) (.binary _ (by decide) (.int _ _) (.int _ _)) (.int _ _)

/-- Division rounds down and not toward zero. -/
theorem quotient_exact : quotient.exact = -4 := by
  rw [quotient, Node.exact, BinaryOp.exact, floor_div_eq_fdiv]
  rfl

end Sample

open Sample in
/-- A quotient that is rounded down, and a product whose overflow comes before the division by
zero. -/
theorem integer_expressions_exact_sample :
    (∃ k : Int64, quotient.eval .empty = .ok (.int k) ∧ k.toInt = -4) ∧
    product.eval .empty = .error ⟨1, .overflow "*"⟩ := by
  have hquotient := (integer_expressions_exact .empty quotient_isArithmetic).1
  rw [quotient_exact] at hquotient
  have hproduct := (integer_expressions_exact .empty product_isArithmetic).2.1
  refine ⟨hquotient ?_, hproduct [] _ _ _ rfl ?_ ?_⟩
  · decide +kernel
  · exact List.forall_mem_nil _
  · decide +kernel

end FormScript
