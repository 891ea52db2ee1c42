import FormScript.Evaluation.Field

/-!
# Running statements and forms

`Run.exec` runs a statement and `Run.execAll` the statements of a block. A form declaration runs
too: its fields are collected by `Run.collectFields`, with each of its loops in an isolated frame,
and the form is stored once all of them are there. The recursion follows the tree, and `passes`
bounds each loop.
-/

namespace FormScript.Run

/-- Declares a variable, with its start value if it has one. The value is computed first and has to
be of the declared type. -/
def declareWith (line : Nat) (name : String) (type : Ty) : Option Node → Run Unit
  | none => declare line name type
  | some init => do
    let v ← eval init
    if v.type = type then
      declare line name type
      assign line name v
    else
      fail line (.storeMismatch name type v.type)

/-- Assigns the value of an expression to a name. -/
def assignTo (target value : Node) : Run Unit :=
  match target with
  | .ident o name => do
    let v ← eval value
    assign o.line name v
  | n => fail n.line (.unexpectedNode n.describe "assignment")

/-- Stores a form with all its fields. -/
def registerForm (name : String) (line : Nat) (fields : FieldList) : Run Unit := do
  let fields := fields.toList
  record (.formRegistered name line fields.length)
  if ← register ⟨name, fields⟩ then
    record (.formReplaced name)

/-- Collects the fields of a form and stores the form once all of them are there. -/
def storeCollected (name : String) (line : Nat) (collect : Run FieldList) : Run Unit := do
  registerForm name line (← collect)

mutual

/-- Runs a statement. -/
def exec (passes : Nat) (n : Node) : Run Unit := do
  record (.statementReached n.line n.describe)
  match n with
  | .block _ body => execAll passes body
  | .assign _ target value => assignTo target value
  | .declare o name type init => declareWith o.line name type init
  | .branch _ condition positive none => do
    if ← holds "if" condition then
      exec passes positive
  | .branch _ condition positive (some negative) => do
    if ← holds "if" condition then
      exec passes positive
    else
      exec passes negative
  | .loop _ condition body => do
    let _ ← whileHolds condition.line (holds "for" condition) (fun _ _ => exec passes body)
      passes 0 ()
  | .print _ expr => do
    let v ← eval expr
    print v.display
  | .form o name body => storeCollected name o.line (collectFields passes name body .empty)
  | .field _ _ _ _ | .blank _ => return
  | .scalar _ _ _ | .array _ _ _ =>
    fail n.line (.unexpectedNode n.describe "statement evaluation")
  | .int _ _ | .str _ _ | .bool _ _ | .ident _ _ | .unary _ _ _ | .binary _ _ _ _ | .scan _ => do
    let _ ← eval n

/-- Runs statements in order, each after a look at the limits. -/
def execAll (passes : Nat) : List Node → Run Unit
  | [] => return
  | n :: rest => do
    checkBudget n.line
    exec passes n
    execAll passes rest

/-- Collects the fields of a form's children, behind those that are there already. -/
def collectFields (passes : Nat) (form : String) : List Node → FieldList → Run FieldList
  | [], fields => return fields
  | .field o kind name properties :: rest, fields => do
    let fields ← addField form none o.line kind name properties fields
    collectFields passes form rest fields
  | .branch _ condition positive _ :: rest, fields => do
    if ← holds "if" condition then
      let fields ← addBlock form none fields positive
      collectFields passes form rest fields
    else
      collectFields passes form rest fields
  | .loop _ condition body :: rest, fields => do
    let fields ← isolated do
      let (count, fields) ← whileHolds condition.line (holds "for" condition)
        (fun pass fields => do
          exec passes body
          addBlock form (some pass) fields body)
        passes 0 fields
      record (.loopUnrolled form count)
      return fields
    collectFields passes form rest fields
  | .blank _ :: rest, fields => collectFields passes form rest fields
  | n :: _, _ => fail n.line (.unexpectedNode n.describe "form extraction")

end

/-- Resolves a form declaration and stores the form. -/
def declareForm (passes : Nat) (name : String) (body : List Node) (line : Nat) : Run Unit :=
  storeCollected name line (collectFields passes name body .empty)

end FormScript.Run
