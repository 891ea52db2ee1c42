import FormScript.Evaluation.Statement

/-!
# Plans of runs

A run looks at its limits in few places: before each statement of a block and before each pass of a
loop. Everything between is `Run.Straight`: it reads and writes variables, prints, reports and
stores forms, and neither loops nor knows of limits. A `Plan` puts straight computations together,
with the places where the limits come in, the isolated frames and the loops as parts of their own,
so that what holds of all runs can be shown by one induction over plans. `Plan.run` carries a plan
out, with a bound on the passes of each loop, and the plan of a statement, carried out, is the run
of that statement (`Plan.statement_run`).
-/

namespace FormScript

/-- How a computation on a machine ends. -/
abbrev Ending (α : Type) := EStateM.Result Halt Machine α

namespace Ending

variable {α : Type}

/-- The machine that a computation leaves, however it ends. -/
def machine : Ending α → Machine
  | .ok _ m | .error _ m => m

/-- The same ending with a change to the machine. -/
def mapMachine (f : Machine → Machine) : Ending α → Ending α
  | .ok a m => .ok a (f m)
  | .error e m => .error e (f m)

@[simp] theorem machine_mapMachine (f : Machine → Machine) (r : Ending α) :
    (r.mapMachine f).machine = f r.machine := by
  cases r <;> rfl

end Ending

namespace Run

/-- A computation is followed by the rest where it succeeds, and by nothing where it fails. -/
theorem bind_run {α β : Type} (x : Run α) (f : α → Run β) (m : Machine) :
    (x >>= f) m = match x m with
      | .ok a m' => f a m'
      | .error e m' => .error e m' := by
  change EStateM.bind x f m = _
  unfold EStateM.bind
  cases x m <;> rfl

/-- An isolated frame is opened before the computation and closed behind it. -/
theorem isolated_run {α : Type} (x : Run α) (m : Machine) :
    isolated x m = Ending.mapMachine (fun m => { m with scopes := m.scopes.pop })
      (x { m with scopes := m.scopes.push }) := by
  unfold isolated
  split <;> simp [*, Ending.mapMachine]

/-- A relation between computations that is kept when they are put together. -/
structure Congruence (R : {α : Type} → Run α → Run α → Prop) : Prop where
  pure : ∀ {α : Type} (a : α), R (pure a) (pure a)
  throw : ∀ {α : Type} (h : Halt), @R α (throw h) (throw h)
  bind : ∀ {α β : Type} {x y : Run α} {f g : α → Run β}, R x y → (∀ a, R (f a) (g a)) →
    R (x >>= f) (y >>= g)

/-- Loops are related if their conditions and their passes are. -/
theorem Congruence.whileHolds {R : {α : Type} → Run α → Run α → Prop} (hR : Congruence R) {σ : Type}
    {line : Nat} {condition condition' : Run Bool} {pass pass' : Nat → σ → Run σ}
    (htick : R (tick line) (tick line)) (hcondition : R condition condition')
    (hpass : ∀ k state, R (pass k state) (pass' k state)) (passes done : Nat) (state : σ) :
    R (Run.whileHolds line condition pass passes done state)
      (Run.whileHolds line condition' pass' passes done state) := by
  induction passes generalizing done state with
  | zero =>
    rw [Run.whileHolds, Run.whileHolds]
    refine hR.bind hcondition fun b => ?_
    split
    · exact hR.bind htick fun _ => hR.throw _
    · exact hR.pure _
  | succ passes ih =>
    rw [Run.whileHolds, Run.whileHolds]
    refine hR.bind hcondition fun b => ?_
    split
    · exact hR.bind htick fun _ => hR.bind (hpass _ _) fun state => ih _ state
    · exact hR.pure _

/-- A computation that reads variables and reports, and changes nothing else. -/
inductive Quiet : {α : Type} → Run α → Prop where
  | read {α : Type} (f : Scopes → Except RuntimeError α) : Quiet (do ofExcept (f (← get).scopes))
  | record (e : Event) : Quiet (record e)
  | bind {α β : Type} {x : Run α} {f : α → Run β} (hx : Quiet x) (hf : ∀ a, Quiet (f a)) :
    Quiet (x >>= f)

/-- A computation without loops and frames that does not look at the limits. -/
inductive Straight : {α : Type} → Run α → Prop where
  | quiet {α : Type} {x : Run α} (h : Quiet x) : Straight x
  | declare (line : Nat) (name : String) (type : Ty) : Straight (declare line name type)
  | assign (line : Nat) (name : String) (value : Value) : Straight (assign line name value)
  | print (text : String) : Straight (print text)
  | register (form : FormDefinition) : Straight (register form)
  | bind {α β : Type} {x : Run α} {f : α → Run β} (hx : Straight x) (hf : ∀ a, Straight (f a)) :
    Straight (x >>= f)

section
variable {α : Type}

/-- An answer without a step is quiet. -/
theorem Quiet.pure (a : α) : Quiet (pure a : Run α) :=
  .read fun _ => .ok a

/-- A fault is quiet. -/
theorem Quiet.fail (line : Nat) (fault : RuntimeFault) : Quiet (fail line fault : Run α) :=
  .read fun _ => .error ⟨line, fault⟩

/-- Evaluating an expression is quiet. -/
theorem eval_quiet (n : Node) : Quiet (eval n) :=
  .read fun scopes => n.eval scopes

/-- Asking for a condition is quiet. -/
theorem holds_quiet (construct : String) (condition : Node) : Quiet (holds construct condition) :=
  .read fun scopes => condition.holds scopes construct

/-- Applying the properties of a field is quiet. -/
theorem applyProperties_quiet (kind : FieldKind) (field : String) (properties : List Node)
    (p : FieldProperties) : Quiet (applyProperties kind field properties p) := by
  induction properties generalizing p with
  | nil => exact .pure p
  | cons property rest ih =>
    rw [applyProperties, ← bind_assoc]
    refine Quiet.bind (.read fun scopes => applyProperty scopes field p property) fun effect => ?_
    cases effect with
    | some p => exact ih p
    | none => exact Quiet.bind (.record _) fun _ => ih p

/-- Adding a field to those of a form is quiet. -/
theorem addField_quiet (form : String) (pass : Option Nat) (line : Nat) (kind : FieldKind)
    (name : String) (properties : List Node) (fields : FieldList) :
    Quiet (addField form pass line kind name properties fields) := by
  refine (applyProperties_quiet kind _ properties _).bind fun resolved => ?_
  split
  · exact .pure _
  · exact .fail _ _

/-- Adding the fields of a block is quiet. -/
theorem addFields_quiet (form : String) (pass : Option Nat) (body : List Node)
    (fields : FieldList) : Quiet (addFields form pass body fields) := by
  induction body generalizing fields with
  | nil => exact .pure fields
  | cons n body ih =>
    cases n with
    | field o kind name properties => exact (addField_quiet _ _ _ _ _ _ _).bind ih
    | assign | blank => exact ih fields
    | _ => exact .fail _ _

/-- Adding the fields of a node that should be a block is quiet. -/
theorem addBlock_quiet (form : String) (pass : Option Nat) (fields : FieldList) (n : Node) :
    Quiet (addBlock form pass fields n) := by
  cases n with
  | block o body => exact addFields_quiet form pass body fields
  | _ => exact .fail _ _

/-- A declaration, with or without a start value, is straight. -/
theorem declareWith_straight (line : Nat) (name : String) (type : Ty) (init : Option Node) :
    Straight (declareWith line name type init) := by
  cases init with
  | none => exact .declare line name type
  | some init =>
    refine Straight.bind (.quiet (eval_quiet init)) fun v => ?_
    split
    · exact (Straight.declare line name type).bind fun _ => .assign line name v
    · exact .quiet (.fail _ _)

/-- An assignment is straight. -/
theorem assignTo_straight (target value : Node) : Straight (assignTo target value) := by
  cases target with
  | ident o name => exact Straight.bind (.quiet (eval_quiet value)) fun v => .assign o.line name v
  | _ => exact .quiet (.fail _ _)

/-- Taking in a form is straight. -/
theorem registerForm_straight (name : String) (line : Nat) (fields : FieldList) :
    Straight (registerForm name line fields) := by
  refine Straight.bind (.quiet (.record _)) fun _ => (Straight.register _).bind fun replaced => ?_
  split
  · exact .quiet (.record _)
  · exact .quiet (.pure ())

end

end Run

open Run

/-- What a run does, without saying how often its loops may turn. -/
inductive Plan : Type → Type 1 where
  /-- Carries out a straight computation. -/
  | step {α : Type} (x : Run α) (straight : Straight x) : Plan α
  /-- Looks at the limits. -/
  | check (line : Nat) : Plan Unit
  /-- Goes on with what the first part gives, unless it stops early. -/
  | bind {α β : Type} (p : Plan α) (f : α → Plan β) : Plan β
  /-- Opens an isolated frame for a part, and closes it again. -/
  | isolated {α : Type} (p : Plan α) : Plan α
  /-- Makes passes while a condition holds. -/
  | loop {σ : Type} (condition : Node) (pass : Nat → σ → Plan σ) (done : Nat) (state : σ) :
    Plan (Nat × σ)

namespace Plan

instance : Monad Plan where
  pure a := step (pure a) (.quiet (.pure a))
  bind := bind

/-- Carries out a quiet computation. -/
def quiet {α : Type} (x : Run α) (h : Quiet x) : Plan α :=
  step x (.quiet h)

/-- Reports an event. -/
def record (e : Event) : Plan Unit :=
  quiet (Run.record e) (.record e)

/-- Asks whether a condition holds. -/
def holds (construct : String) (condition : Node) : Plan Bool :=
  quiet (Run.holds construct condition) (holds_quiet construct condition)

/-- Stops at a node that the phase has no use for. -/
def refuse {α : Type} (n : Node) (phase : String) : Plan α :=
  quiet (fail n.line (.unexpectedNode n.describe phase)) (.fail _ _)

/-- Carries a plan out, with at most `passes` passes of each loop. -/
def run (passes : Nat) {α : Type} : Plan α → Run α
  | step x _ => x
  | check line => checkBudget line
  | bind p f => do
    let a ← p.run passes
    (f a).run passes
  | isolated p => Run.isolated (p.run passes)
  | loop condition pass done state =>
    whileHolds condition.line (Run.holds "for" condition) (fun i state => (pass i state).run passes)
      passes done state

mutual

/-- The plan of a statement. -/
def statement (n : Node) : Plan Unit := do
  record (.statementReached n.line n.describe)
  match n with
  | .block _ body => statements body
  | .assign _ target value => step (assignTo target value) (assignTo_straight target value)
  | .declare o name type init =>
    step (declareWith o.line name type init) (declareWith_straight o.line name type init)
  | .branch _ condition positive none => do
    if ← holds "if" condition then
      statement positive
  | .branch _ condition positive (some negative) => do
    if ← holds "if" condition then
      statement positive
    else
      statement negative
  | .loop _ condition body => do
    let _ ← loop condition (fun _ _ => statement body) 0 ()
  | .print _ expr => do
    let v ← quiet (eval expr) (eval_quiet expr)
    step (print v.display) (.print v.display)
  | .form o name body => do
    let fields ← children name body .empty
    step (registerForm name o.line fields) (registerForm_straight name o.line fields)
  | .field _ _ _ _ | .blank _ => return
  | .scalar _ _ _ | .array _ _ _ => refuse n "statement evaluation"
  | .int _ _ | .str _ _ | .bool _ _ | .ident _ _ | .unary _ _ _ | .binary _ _ _ _ | .scan _ => do
    let _ ← quiet (eval n) (eval_quiet n)

/-- The plan of the statements of a block. -/
def statements : List Node → Plan Unit
  | [] => return
  | n :: rest => do
    check n.line
    statement n
    statements rest

/-- The plan that collects the fields of a form's children. -/
def children (form : String) : List Node → FieldList → Plan FieldList
  | [], fields => return fields
  | .field o kind name properties :: rest, fields => do
    let fields ← quiet (addField form none o.line kind name properties fields)
      (addField_quiet form none o.line kind name properties fields)
    children form rest fields
  | .branch _ condition positive _ :: rest, fields => do
    if ← holds "if" condition then
      let fields ← quiet (addBlock form none fields positive)
        (addBlock_quiet form none fields positive)
      children form rest fields
    else
      children form rest fields
  | .loop _ condition body :: rest, fields => do
    let fields ← isolated do
      let (count, fields) ← loop condition
        (fun pass fields => do
          statement body
          quiet (addBlock form (some pass) fields body)
            (addBlock_quiet form (some pass) fields body))
        0 fields
      record (.loopUnrolled form count)
      return fields
    children form rest fields
  | .blank _ :: rest, fields => children form rest fields
  | n :: _, _ => refuse n "form extraction"

end

/-! ## Plans and runs -/

section
variable {α β : Type} (passes : Nat)

/-- A plan in two steps is carried out step by step. -/
theorem run_bind (p : Plan α) (f : α → Plan β) :
    (p >>= f).run passes = p.run passes >>= fun a => (f a).run passes :=
  rfl

/-- A plan with a choice is carried out by the choice. -/
theorem run_ite (c : Prop) [Decidable c] (p q : Plan α) :
    (if c then p else q).run passes = if c then p.run passes else q.run passes := by
  split <;> rfl

end

mutual

/-- The plan of a statement, carried out, is its run. -/
theorem statement_run (passes : Nat) : (n : Node) → (statement n).run passes = exec passes n
  | .block _ body => by
    rw [statement, exec, run_bind, statements_run passes body]
    rfl
  | .branch _ condition positive none => by
    rw [statement, exec]
    simp only [run_bind, run_ite, statement_run passes positive]
    rfl
  | .branch _ condition positive (some negative) => by
    rw [statement, exec]
    simp only [run_bind, run_ite, statement_run passes positive, statement_run passes negative]
    rfl
  | .loop _ condition body => by
    rw [statement, exec]
    simp only [run_bind, run, statement_run passes body]
    rfl
  | .form o name body => by
    rw [statement, exec]
    simp only [run_bind, children_run passes name body]
    rfl
  | .print _ _ | .assign _ _ _ | .declare _ _ _ _ | .field _ _ _ _ | .blank _ | .scalar _ _ _
  | .array _ _ _ | .int _ _ | .str _ _ | .bool _ _ | .ident _ _ | .unary _ _ _ | .binary _ _ _ _
  | .scan _ => by
    rw [statement, exec]
    rfl

/-- The plan of the statements of a block does what running them does. -/
theorem statements_run (passes : Nat) :
    (body : List Node) → (statements body).run passes = execAll passes body
  | [] => by
    rw [statements, execAll]
    rfl
  | n :: rest => by
    rw [statements, execAll, run_bind, run_bind]
    simp only [statement_run passes n, statements_run passes rest]
    rfl

/-- The plan of a form's children does what collecting their fields does. -/
theorem children_run (passes : Nat) (form : String) : (body : List Node) → (fields : FieldList) →
    (children form body fields).run passes = collectFields passes form body fields
  | [], fields => by
    rw [children, collectFields]
    rfl
  | n :: rest, fields => by
    have ih := children_run passes form rest
    cases n with
    | field o kind name properties =>
      rw [children, collectFields]
      simp only [run_bind, ih]
      rfl
    | branch _ condition positive negative =>
      rw [children, collectFields]
      simp only [run_bind, run_ite, ih]
      rfl
    | loop _ condition body =>
      rw [children, collectFields]
      simp only [run_bind, run, statement_run passes body, ih]
      rfl
    | blank _ => rw [children, collectFields, ih]
    | _ => rfl

end

end Plan

end FormScript
