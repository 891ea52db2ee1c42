import FormScript.Compile
import FormScript.Proofs.Equality
import FormScript.Proofs.Shape

/-!
# The faults of a run

The run of a program can stop with many faults, but an internal one, for a node in a place where the
run has no use for it, is none of them. `Run.FailsOnly P x` says that every error with which `x`
stops has the property `P`. A run of a tree of the right shape has it for every `P` that all faults
but internal ones have at the lines of the tree (`Run.exec_failsOnly`), so the one induction over
the tree serves what is said about the causes of errors and about their lines. In a form the shape
matters twice: the block of a loop is first run and then searched for fields, and has to suit both.
Only adding a field to a form can fail because its name is taken, so all that comes before that asks
less of `P` (`RegularAt`).
-/

namespace FormScript

/-- Every failure of a computation has a property. -/
def FailsOnly {ε α : Type} (P : ε → Prop) (x : Except ε α) : Prop :=
  ∀ ⦃e : ε⦄, x = .error e → P e

/-- A fault that is not internal. -/
abbrev RuntimeFault.Ordinary (fault : RuntimeFault) : Prop :=
  fault.kind ≠ .internal

/-- A fault that is not internal and not about the name of a field. -/
abbrev RuntimeFault.Regular (fault : RuntimeFault) : Prop :=
  fault.Ordinary ∧ ∀ form field, fault ≠ .duplicateField form field

section
variable {ε α β : Type} {P : ε → Prop}

/-- A success does not fail. -/
theorem FailsOnly.ok (a : α) : FailsOnly P (.ok a) :=
  nofun

/-- A failure fails only as it does. -/
theorem FailsOnly.error {e : ε} (h : P e) : FailsOnly P (.error e : Except ε α) := by
  rintro _ ⟨⟩
  exact h

/-- Computations fail only as either of them does, one behind the other. -/
theorem FailsOnly.bind {x : Except ε α} {f : α → Except ε β} (hx : FailsOnly P x)
    (hf : ∀ a, FailsOnly P (f a)) : FailsOnly P (x >>= f) := by
  cases x with
  | error e => exact .error (hx rfl)
  | ok a => exact hf a

/-- What is made of a result does not fail. -/
theorem FailsOnly.map {x : Except ε α} {f : α → β} (hx : FailsOnly P x) :
    FailsOnly P (x.map f) := by
  cases x with
  | error e => exact .error (hx rfl)
  | ok a => exact .ok (f a)

end

/-! ## Operators, variables and limits -/

attribute [local simp] RuntimeFault.kind RuntimeFault.Regular

/-- A result that does not fit is an overflow, which is a regular fault. -/
theorem fitted_failsOnly (op : String) (n : Option Int64) :
    FailsOnly RuntimeFault.Regular (fitted op n) := by
  cases n with
  | none => exact .error (by simp)
  | some n => exact .ok n

/-- Operators on integers have regular faults only. -/
theorem onInts_failsOnly (op : BinaryOp) (left right : Int64) :
    FailsOnly RuntimeFault.Regular (onInts op left right) := by
  cases op with
  | add | sub | mul => exact (fitted_failsOnly _ _).map
  | div =>
    refine FailsOnly.map ?_
    rw [arithmetic]
    split
    · exact .error (by simp)
    · exact fitted_failsOnly _ _
  | _ => exact .ok _

/-- Infix operators have regular faults only. -/
theorem BinaryOp.apply_failsOnly (op : BinaryOp) (left right : Value) :
    FailsOnly RuntimeFault.Regular (op.apply left right) := by
  have hunsupported : ∀ {l r : Ty}, (RuntimeFault.unsupportedBinary op l r).Regular := by
    simp
  unfold BinaryOp.apply
  split
  · exact onInts_failsOnly op _ _
  · cases op with
    | add | equal | greater | less => exact .ok _
    | _ => exact .error hunsupported
  · cases op with
    | add | sub | mul | div => exact .error hunsupported
    | _ => exact .ok _
  · exact .error hunsupported

/-- Prefix operators have regular faults only. -/
theorem UnaryOp.apply_failsOnly (op : UnaryOp) (operand : Value) :
    FailsOnly RuntimeFault.Regular (op.apply operand) := by
  unfold UnaryOp.apply
  split
  · exact .ok _
  · exact (fitted_failsOnly _ _).map
  · exact .ok _
  · exact .error (by simp)

/-- A value that is no truth value is a regular fault of a condition. -/
theorem Value.condition_failsOnly (construct : String) (v : Value) :
    FailsOnly RuntimeFault.Regular (v.condition construct) := by
  cases v with
  | bool b => exact .ok b
  | _ => exact .error (by simp)

namespace Scopes

/-- An unknown name is a regular fault. -/
theorem get_failsOnly (scopes : Scopes) (name : String) :
    FailsOnly RuntimeFault.Regular (scopes.get name) := by
  unfold get
  split
  · exact .ok _
  · exact .error (by simp)

/-- A name that is unknown or has no value is a regular fault. -/
theorem value_failsOnly (scopes : Scopes) (name : String) :
    FailsOnly RuntimeFault.Regular (scopes.value name) := by
  refine (scopes.get_failsOnly name).bind fun v => ?_
  split
  · exact .ok _
  · exact .error (by simp)

/-- A name that is declared twice is a regular fault. -/
theorem declare_failsOnly (scopes : Scopes) (name : String) (type : Ty) :
    FailsOnly RuntimeFault.Regular (scopes.declare name type) := by
  have hdeclared : (RuntimeFault.alreadyDeclared name).Regular := by simp
  unfold declare Frame.declare
  split
  · exact .error hdeclared
  · refine FailsOnly.map ?_
    split
    · exact .error hdeclared
    · exact .ok _

/-- Writing a variable has regular faults only. -/
theorem assign_failsOnly (scopes : Scopes) (name : String) (value : Value) :
    FailsOnly RuntimeFault.Regular (scopes.assign name value).1 := by
  have hset : ∀ (f : Frame) (v : Variable), FailsOnly RuntimeFault.Regular (f.set name v) := by
    intro f v
    have hget : FailsOnly RuntimeFault.Regular (f.get name) := by
      unfold Frame.get
      split
      · exact .ok _
      · exact .error (by simp)
    refine hget.bind fun declared => ?_
    split
    · exact .ok _
    · exact .error (by simp)
  unfold assign
  split
  · exact .error (scopes.get_failsOnly name ‹_›)
  · dsimp only
    split
    · exact .error (hset _ _ ‹_›)
    · exact .ok _

end Scopes

namespace Budget

/-- A deadline or a signal is a regular fault. -/
theorem check_failsOnly (b : Budget) : FailsOnly RuntimeFault.Regular b.check.1 := by
  unfold check verdict
  dsimp only
  split
  · exact .error (by simp)
  · split
    · exact .error (by simp)
    · exact .ok _

/-- The limit on loop passes is a regular fault. -/
theorem charge_failsOnly (b : Budget) : FailsOnly RuntimeFault.Regular b.charge.1 := by
  unfold charge
  split
  · split
    · exact .error (by simp)
    · exact b.check_failsOnly
  · exact b.check_failsOnly

end Budget

/-! ## Runs -/

/-- Every error with which a run stops has a property. -/
def Run.FailsOnly {α : Type} (P : RuntimeError → Prop) (x : Run α) : Prop :=
  ∀ ⦃m : Machine⦄ ⦃e : RuntimeError⦄ ⦃m' : Machine⦄, x m = .error (.error e) m' → P e

/-- Every fault but an internal one has a property at a line. -/
def AdmittedAt (P : RuntimeError → Prop) (line : Nat) : Prop :=
  ∀ fault : RuntimeFault, fault.Ordinary → P ⟨line, fault⟩

/-- Every regular fault has a property at a line. -/
def RegularAt (P : RuntimeError → Prop) (line : Nat) : Prop :=
  ∀ fault : RuntimeFault, fault.Regular → P ⟨line, fault⟩

/-- Where all faults but internal ones are admitted, regular faults are. -/
theorem AdmittedAt.regular {P : RuntimeError → Prop} {line : Nat} (h : AdmittedAt P line) :
    RegularAt P line :=
  fun fault hfault => h fault hfault.1

section
variable {α β : Type} {P : RuntimeError → Prop} {line : Nat}

/-- A fault that is located at a line has a property if all regular ones have. -/
theorem FailsOnly.locate {x : Except RuntimeFault α} (hx : FailsOnly RuntimeFault.Regular x)
    (hline : RegularAt P line) : FailsOnly P (locate line x) := by
  cases x with
  | error fault => exact .error (hline fault (hx rfl))
  | ok a => exact .ok a

namespace Run

/-- An answer without a step stops with no error. -/
theorem FailsOnly.pure (a : α) : FailsOnly P (pure a : Run α) := by
  rintro m e m' ⟨⟩

/-- Runs stop only as either of them does, and the second one matters only behind results of the
first. -/
theorem FailsOnly.bind_of_ok {x : Run α} {f : α → Run β} (hx : FailsOnly P x)
    (hf : ∀ {m a m'}, x m = .ok a m' → FailsOnly P (f a)) : FailsOnly P (x >>= f) := by
  intro m e m' h
  change EStateM.bind x f m = _ at h
  unfold EStateM.bind at h
  split at h
  · exact hf ‹_› h
  · cases h
    exact hx ‹_›

/-- Runs stop only as either of them does, one behind the other. -/
theorem FailsOnly.bind {x : Run α} {f : α → Run β} (hx : FailsOnly P x)
    (hf : ∀ a, FailsOnly P (f a)) : FailsOnly P (x >>= f) :=
  hx.bind_of_ok fun _ => hf _

/-- Looking at the machine stops with no error. -/
theorem FailsOnly.get : FailsOnly P (get : Run Machine) := by
  rintro m e m' ⟨⟩

/-- Changing the machine stops with no error. -/
theorem FailsOnly.modify (f : Machine → Machine) : FailsOnly P (modify f : Run PUnit) := by
  rintro m e m' ⟨⟩

/-- A run that passes on a failure stops as this fails. -/
theorem FailsOnly.ofExcept {x : Except RuntimeError α} (hx : FormScript.FailsOnly P x) :
    FailsOnly P (ofExcept x) := by
  intro m e m' h
  cases x with
  | ok a => cases h
  | error e =>
    cases h
    exact hx rfl

/-- A fault stops a run with an error at its line. -/
theorem FailsOnly.fail {fault : RuntimeFault} (h : P ⟨line, fault⟩) :
    FailsOnly P (fail line fault : Run α) := by
  rintro m e m' ⟨⟩
  exact h

/-- Giving up for want of passes is no error. -/
theorem FailsOnly.unfinished : FailsOnly P (throw .unfinished : Run α) := by
  rintro m e m' ⟨⟩

/-- A counter without another number is no error. -/
theorem FailsOnly.overflow : FailsOnly P (throw .overflow : Run α) := by
  rintro m e m' ⟨⟩

/-- Reporting stops with no error. -/
theorem record_failsOnly (e : Event) : FailsOnly P (record e) :=
  .modify _

/-- A run that obeys its budget stops only with the faults of the budget. -/
theorem obey_failsOnly {checked : Except RuntimeFault Unit × Budget}
    (hchecked : FormScript.FailsOnly RuntimeFault.Regular checked.1) (hline : RegularAt P line) :
    FailsOnly P (obey line checked) := by
  obtain ⟨result, b⟩ := checked
  refine FailsOnly.bind (.modify _) fun _ => ?_
  cases result with
  | ok u => exact .pure ()
  | error fault =>
    have hfail : FailsOnly P (fail line fault : Run Unit) := .fail (hline fault (hchecked rfl))
    dsimp only
    split
    · exact (record_failsOnly _).bind fun _ => hfail
    · exact hfail

/-- A look outside has regular faults only. -/
theorem checkBudget_failsOnly (hline : RegularAt P line) : FailsOnly P (checkBudget line) :=
  FailsOnly.bind .get fun m => obey_failsOnly m.budget.check_failsOnly hline

/-- A loop pass has regular faults only, besides those of its body. -/
theorem tick_failsOnly (hline : RegularAt P line) : FailsOnly P (tick line) := by
  refine FailsOnly.bind .get fun m => ?_
  cases hcount : m.budget.count? with
  | none =>
    rw [Budget.tick?, hcount]
    exact .overflow
  | some b =>
    rw [Budget.tick?, hcount]
    exact obey_failsOnly b.charge_failsOnly hline

/-- Declaring a variable stops a run with regular faults only. -/
theorem declare_failsOnly (hline : RegularAt P line) (name : String) (type : Ty) :
    FailsOnly P (declare line name type) :=
  FailsOnly.bind .get fun m =>
    FailsOnly.bind (.ofExcept ((m.scopes.declare_failsOnly name type).locate hline))
      fun _ => .modify _

/-- Writing a variable stops a run with regular faults only. -/
theorem assign_failsOnly (hline : RegularAt P line) (name : String) (value : Value) :
    FailsOnly P (assign line name value) :=
  FailsOnly.bind .get fun m => FailsOnly.bind (.modify _) fun _ =>
    .ofExcept ((m.scopes.assign_failsOnly name value).locate hline)

/-- Taking in a form stops with no error. -/
theorem registerForm_failsOnly (name : String) (line : Nat) (fields : FieldList) :
    FailsOnly P (registerForm name line fields) := by
  have hregister : ∀ form : FormDefinition, FailsOnly P (register form) := fun form =>
    FailsOnly.bind .get fun _ => FailsOnly.bind (.modify _) fun _ => .pure _
  refine (record_failsOnly _).bind fun _ => (hregister _).bind fun replaced => ?_
  split
  · exact record_failsOnly _
  · exact .pure ()

/-- A frame of its own adds no errors. -/
theorem isolated_failsOnly {body : Run α} (h : FailsOnly P body) : FailsOnly P (isolated body) := by
  intro m e m' heq
  unfold isolated at heq
  split at heq
  · cases heq
  · cases heq
    exact h ‹_›

/-- A loop fails as its condition, a limit or one of its passes does, if each pass starts from a
state that is fit for its number and leaves one that is fit for the next. -/
theorem whileHolds_failsOnly_of_fit {σ : Type} {condition : Run Bool} {pass : Nat → σ → Run σ}
    {Fit : Nat → σ → Prop} (hline : RegularAt P line) (hcondition : FailsOnly P condition)
    (hpass : ∀ {i state}, Fit i state → FailsOnly P (pass (i + 1) state))
    (hnext : ∀ {i state m state' m'}, Fit i state → pass (i + 1) state m = .ok state' m' →
      Fit (i + 1) state')
    (passes : Nat) {done : Nat} {state : σ} (hfit : Fit done state) :
    FailsOnly P (whileHolds line condition pass passes done state) := by
  induction passes generalizing done state with
  | zero =>
    rw [whileHolds]
    refine hcondition.bind fun holds => ?_
    split
    · exact (tick_failsOnly hline).bind fun _ => .unfinished
    · exact .pure _
  | succ passes ih =>
    rw [whileHolds]
    refine hcondition.bind fun holds => ?_
    split
    · exact (tick_failsOnly hline).bind fun _ => (hpass hfit).bind_of_ok fun hok =>
        ih (hnext hfit hok)
    · exact .pure _

/-- A loop fails as its condition, a limit or one of its passes does. -/
theorem whileHolds_failsOnly {σ : Type} {condition : Run Bool} {pass : Nat → σ → Run σ}
    (hline : RegularAt P line) (hcondition : FailsOnly P condition)
    (hpass : ∀ i state, FailsOnly P (pass i state)) (passes done : Nat) (state : σ) :
    FailsOnly P (whileHolds line condition pass passes done state) :=
  @whileHolds_failsOnly_of_fit _ _ σ condition pass (fun _ _ => True) hline hcondition
    (fun _ => hpass _ _) (fun _ _ => trivial) passes done state trivial

end Run

/-! ## Expressions -/

open Node (IsExpression IsProperty IsField HasRole)

/-- Every fault but an internal one has a property at the lines of a node and of all nodes below
it. -/
def Node.AdmittedIn (P : RuntimeError → Prop) (n : Node) : Prop :=
  ∀ m ∈ n.walk, AdmittedAt P m.line

/-- Faults that are admitted in a tree are admitted at its line. -/
theorem Node.AdmittedIn.self {n : Node} (h : n.AdmittedIn P) : AdmittedAt P n.line :=
  (Node.forall_walk.1 h).1

/-- Faults that are admitted in a tree are admitted in each of its parts. -/
theorem Node.AdmittedIn.part {n part : Node} (h : n.AdmittedIn P) (hpart : part ∈ n.children) :
    part.AdmittedIn P :=
  (Node.forall_walk.1 h).2 part hpart

/-- Every regular fault has a property at the lines of a node and of all nodes below it. -/
def Node.RegularIn (P : RuntimeError → Prop) (n : Node) : Prop :=
  ∀ m ∈ n.walk, RegularAt P m.line

/-- Where all faults but internal ones are admitted in a tree, regular faults are. -/
theorem Node.AdmittedIn.regular {n : Node} (h : n.AdmittedIn P) : n.RegularIn P :=
  fun m hm => (h m hm).regular

/-- Regular faults that are allowed in a tree are allowed at its line. -/
theorem Node.RegularIn.self {n : Node} (h : n.RegularIn P) : RegularAt P n.line :=
  (Node.forall_walk.1 h).1

/-- Regular faults that are allowed in a tree are allowed in each of its parts. -/
theorem Node.RegularIn.part {n part : Node} (h : n.RegularIn P) (hpart : part ∈ n.children) :
    part.RegularIn P :=
  (Node.forall_walk.1 h).2 part hpart

section
variable {e n : Node}

/-- An expression has regular faults only, at lines of its tree. -/
theorem Node.eval_failsOnly (he : IsExpression e) (hP : e.RegularIn P) (scopes : Scopes) :
    FailsOnly P (e.eval scopes) := by
  induction he with
  | literal literal => cases literal <;> exact .ok _
  | ident o name => exact (scopes.value_failsOnly name).locate hP.self
  | scan o => exact .ok _
  | unary o op _ ih =>
    exact (ih (hP.part (.head _))).bind fun v => (op.apply_failsOnly v).locate hP.self
  | binary o op _ _ ih ih' =>
    exact (ih (hP.part (.head _))).bind fun l =>
      (ih' (hP.part (.tail _ (.head _)))).bind fun r => (op.apply_failsOnly l r).locate hP.self

/-- A run that evaluates an expression stops with regular faults only, at lines of its tree. -/
theorem Run.eval_failsOnly (he : IsExpression e) (hP : e.RegularIn P) : FailsOnly P (eval e) :=
  FailsOnly.bind .get fun m => .ofExcept (Node.eval_failsOnly he hP m.scopes)

/-- A run that asks for a condition stops with regular faults only, at lines of its tree. -/
theorem Run.holds_failsOnly (he : IsExpression e) (hP : e.RegularIn P) (construct : String) :
    FailsOnly P (holds construct e) :=
  FailsOnly.bind .get fun m => .ofExcept ((Node.eval_failsOnly he hP m.scopes).bind fun v =>
    (v.condition_failsOnly construct).locate hP.self)

/-! ## Fields -/

/-- Options have regular faults only, at the lines of the items. -/
theorem resolveOptions_failsOnly {items : List Node} (hP : ∀ n ∈ items, n.RegularIn P)
    (scopes : Scopes) : FailsOnly P (resolveOptions scopes items) := by
  have hoption : ∀ n : Node, n.RegularIn P → FailsOnly P (resolveOption scopes n) := by
    intro n hn
    cases n with
    | ident o name =>
      refine ((scopes.value_failsOnly name).locate hn.self).bind fun v => ?_
      cases v <;> exact .ok _
    | _ => exact .ok _
  induction items with
  | nil => exact .ok []
  | cons n items ih =>
    rw [List.forall_mem_cons] at hP
    exact (hoption n hP.1).bind fun _ => (ih hP.2).bind fun _ => .ok _

/-- A property has regular faults only, at lines of its tree. -/
theorem applyProperty_failsOnly (hn : IsProperty n) (hP : n.RegularIn P) (scopes : Scopes)
    (field : String) (p : FieldProperties) : FailsOnly P (applyProperty scopes field p n) := by
  unfold applyProperty
  split
  · exact (resolveOptions_failsOnly (fun m hm => hP.part hm) scopes).bind fun _ => .ok _
  · exact .error (hP.self _ (by simp))
  · exact .ok _
  · exact .ok _
  · exact .ok _
  · exact .ok _
  · exact .ok _
  · -- What is left is neither kind of property.
    rename_i hscalar harray
    cases hn with
    | scalar => exact (hscalar _ _ _ rfl).elim
    | array => exact (harray _ _ _ rfl).elim

/-- The properties of a field stop a run with regular faults only, at lines of their trees. -/
theorem Run.applyProperties_failsOnly {properties : List Node} (h : ∀ n ∈ properties, IsProperty n)
    (hP : ∀ n ∈ properties, n.RegularIn P) (kind : FieldKind) (field : String)
    (p : FieldProperties) : FailsOnly P (applyProperties kind field properties p) := by
  induction properties generalizing p with
  | nil => exact .pure p
  | cons n properties ih =>
    rw [List.forall_mem_cons] at h hP
    refine FailsOnly.bind .get fun m =>
      FailsOnly.bind (.ofExcept (applyProperty_failsOnly h.1 hP.1 m.scopes field p))
        fun effect => ?_
    cases effect with
    | some p => exact ih h.2 hP.2 p
    | none => exact (record_failsOnly _).bind fun _ => ih h.2 hP.2 p

/-- A field declaration has no internal faults. -/
theorem Run.addField_failsOnly {o : Origin} {kind : FieldKind} {name : String}
    {properties : List Node} (h : IsField (.field o kind name properties))
    (hP : (Node.field o kind name properties).AdmittedIn P) (form : String) (pass : Option Nat)
    (fields : FieldList) : FailsOnly P (addField form pass o.line kind name properties fields) := by
  obtain ⟨_, _, _, h⟩ := h
  refine (applyProperties_failsOnly h (fun n hn => (hP.part hn).regular) kind _ _).bind
    fun resolved => ?_
  split
  · exact .pure _
  · exact .fail (hP.self _ (by simp))

/-- The fields of a block that a form admits. -/
theorem Run.addFields_failsOnly {container : Grammar.FormContainer} {body : List Node}
    (h : ∀ n ∈ body, HasRole .line n) (hbody : ∀ n ∈ body, container.admits n = true)
    (hP : ∀ n ∈ body, n.AdmittedIn P) (form : String) (pass : Option Nat) (fields : FieldList) :
    FailsOnly P (addFields form pass body fields) := by
  induction body generalizing fields with
  | nil => exact .pure fields
  | cons n body ih =>
    rw [List.forall_mem_cons] at h hbody hP
    have hrest := ih h.2 hbody.2 hP.2
    cases n with
    | field o kind name properties =>
      have hfield : IsField (.field o kind name properties) := by
        cases h.1 with
        | field field => exact field
      exact (addField_failsOnly hfield hP.1 form pass fields).bind hrest
    | assign | blank => exact hrest fields
    | _ => cases hbody.1

/-! ## Statements and forms -/

namespace Run

/-- The statements of a block stop a run as each of them does, or with faults of the budget. -/
theorem execAll_failsOnly {passes : Nat} {body : List Node}
    (h : ∀ n ∈ body, FailsOnly P (exec passes n)) (hP : ∀ n ∈ body, n.RegularIn P) :
    FailsOnly P (execAll passes body) := by
  induction body with
  | nil => exact .pure ()
  | cons n body ih =>
    rw [List.forall_mem_cons] at h hP
    rw [execAll]
    exact (checkBudget_failsOnly hP.1.self).bind fun _ => h.1.bind fun _ => ih h.2 hP.2

/-- What a run makes of a node in its place fails only as it should. A child of a form is run
together with the children behind it. -/
def PlaceFailsOnly (P : RuntimeError → Prop) (passes : Nat) (n : Node) : Node.Role → Prop
  | .block | .line => FailsOnly P (exec passes n)
  | .child => ∀ form rest fields, (∀ fields, FailsOnly P (collectFields passes form rest fields)) →
    FailsOnly P (collectFields passes form (n :: rest) fields)

/-- The children of a form stop a run as each of them does. -/
theorem collectFields_failsOnly {passes : Nat} {body : List Node}
    (h : ∀ n ∈ body, PlaceFailsOnly P passes n .child) (form : String) (fields : FieldList) :
    FailsOnly P (collectFields passes form body fields) := by
  induction body generalizing fields with
  | nil =>
    rw [collectFields]
    exact .pure fields
  | cons n body ih =>
    rw [List.forall_mem_cons] at h
    exact h.1 form body fields (ih h.2)

/-- A block of a form is extracted if its condition holds. In a loop it is run before that, as often
as the condition holds, and admitted for both. -/
theorem collectFields_toNode {e : Node} {body : List Node} {o o' : Origin}
    {container : Grammar.FormContainer} {passes : Nat} (condition : IsExpression e)
    (block : HasRole .block (.block o' body)) (admitted : ∀ n ∈ body, container.admits n = true)
    (hcondition : e.AdmittedIn P) (hblock : (Node.block o' body).AdmittedIn P)
    (hexec : FailsOnly P (exec passes (.block o' body))) :
    PlaceFailsOnly P passes (container.toNode o e (.block o' body)) .child := by
  intro form rest fields hrest
  have hlines : ∀ n ∈ body, HasRole .line n := by
    cases block with
    | block _ lines => exact lines
  have hadd : ∀ pass fields, FailsOnly P (addBlock form pass fields (.block o' body)) :=
    addFields_failsOnly hlines admitted (fun n hn => hblock.part hn) form
  have hholds := fun construct => holds_failsOnly condition hcondition.regular construct
  cases container with
  | branch =>
    rw [Grammar.FormContainer.toNode, collectFields]
    refine (hholds _).bind fun holds => ?_
    split
    · exact (hadd none fields).bind hrest
    · exact hrest fields
  | loop =>
    rw [Grammar.FormContainer.toNode, collectFields]
    have hpass : ∀ pass fields, FailsOnly P (do
        exec passes (.block o' body)
        addBlock form (some pass) fields (.block o' body)) :=
      fun pass fields => hexec.bind fun _ => hadd (some pass) fields
    have hloop := whileHolds_failsOnly hcondition.self.regular (hholds "for") hpass passes 0 fields
    refine (isolated_failsOnly (hloop.bind ?_)).bind hrest
    intro result
    exact (record_failsOnly _).bind fun _ => .pure _

/-- What a run makes of a node in a place where it can stand has no internal faults. -/
theorem placeFailsOnly {role : Node.Role} (h : HasRole role n) (hP : n.AdmittedIn P)
    (passes : Nat) : PlaceFailsOnly P passes n role := by
  induction h with
  | block o _ ih =>
    rw [PlaceFailsOnly, exec]
    refine (record_failsOnly _).bind fun _ => ?_
    exact execAll_failsOnly (fun n hn => ih n hn (hP.part hn)) fun n hn => (hP.part hn).regular
  | field field =>
    obtain ⟨o, kind, name, _⟩ := field
    rw [PlaceFailsOnly, exec]
    exact (record_failsOnly _).bind fun _ => .pure ()
  | print o expr =>
    rw [PlaceFailsOnly, exec]
    refine (record_failsOnly _).bind fun _ => ?_
    exact (eval_failsOnly expr (hP.part (.head _)).regular).bind fun v => .modify _
  | declare o name type =>
    rw [PlaceFailsOnly, exec]
    exact (record_failsOnly _).bind fun _ => declare_failsOnly hP.self.regular name type
  | declareInit o name type init =>
    rw [PlaceFailsOnly, exec]
    refine (record_failsOnly _).bind fun _ => ?_
    refine (eval_failsOnly init (hP.part (.head _)).regular).bind fun v => ?_
    split
    · exact (declare_failsOnly hP.self.regular name type).bind fun _ =>
        assign_failsOnly hP.self.regular name v
    · exact .fail (hP.self _ (by simp))
  | assign o o' name value =>
    rw [PlaceFailsOnly, exec]
    refine (record_failsOnly _).bind fun _ => ?_
    refine (eval_failsOnly value (hP.part (.tail _ (.head _))).regular).bind fun v => ?_
    exact assign_failsOnly (hP.part (.head _)).self.regular name v
  | loop o condition _ ih =>
    rw [PlaceFailsOnly, exec]
    refine (record_failsOnly _).bind fun _ => FailsOnly.bind ?_ fun _ => .pure ()
    have hcondition := hP.part (.head _)
    exact whileHolds_failsOnly hcondition.self.regular
      (holds_failsOnly condition hcondition.regular _)
      (fun _ _ => ih (hP.part (.tail _ (.head _)))) passes 0 ()
  | branch o condition _ ih =>
    rw [PlaceFailsOnly, exec]
    refine (record_failsOnly _).bind fun _ => ?_
    refine (holds_failsOnly condition (hP.part (.head _)).regular _).bind fun holds => ?_
    split
    · exact ih (hP.part (.tail _ (.head _)))
    · exact .pure ()
  | branchElse o condition _ _ ih ih' =>
    rw [PlaceFailsOnly, exec]
    refine (record_failsOnly _).bind fun _ => ?_
    refine (holds_failsOnly condition (hP.part (.head _)).regular _).bind fun holds => ?_
    split
    · exact ih (hP.part (.tail _ (.head _)))
    · exact ih' (hP.part (.tail _ (.tail _ (.head _))))
  | blank o =>
    rw [PlaceFailsOnly, exec]
    exact (record_failsOnly _).bind fun _ => .pure ()
  | form o name _ ih =>
    rw [PlaceFailsOnly, exec]
    refine (record_failsOnly _).bind fun _ => ?_
    refine (collectFields_failsOnly (fun n hn => ih n hn (hP.part hn)) name .empty).bind
      fun fields => ?_
    exact registerForm_failsOnly name o.line fields
  | childField field =>
    obtain ⟨o, kind, name, properties⟩ := field
    intro form rest fields hrest
    rw [collectFields]
    exact (addField_failsOnly (.intro o kind name properties) hP form none fields).bind hrest
  | @childBlock e body o o' container condition block admitted ih =>
    have hcondition : e.AdmittedIn P := hP.part (by simp [Grammar.FormContainer.children_toNode])
    have hblock : (Node.block o' body).AdmittedIn P :=
      hP.part (by simp [Grammar.FormContainer.children_toNode])
    exact collectFields_toNode condition block admitted hcondition hblock (ih hblock)

/-- A run of a parsed tree stops only with ordinary faults at lines of the tree. -/
theorem exec_failsOnly {source : String} {root : Node} (h : parse source = .ok root)
    (hP : root.AdmittedIn P) (passes : Nat) : FailsOnly P (exec passes root) :=
  placeFailsOnly (Grammar.hasRole_of_parse h) hP passes

end Run

end

end

/-- How a compilation fails: its text cannot be parsed or its run stops. -/
theorem compileWith_error {options : Options} {outside : Outside} {source : String} {e : Error}
    (h : compileWith options outside source = .error (.error e)) :
    (∃ e', parse source = .error e' ∧ e = .parse e') ∨
    ∃ root e' m m', parse source = .ok root ∧ e = .runtime e' ∧
      Run.exec m.budget.passes root m = .error (.error e') m' := by
  unfold compileWith compileLogged at h
  cases hparse : parse source with
  | error e' =>
    rw [hparse] at h
    cases h
    exact .inl ⟨e', rfl, rfl⟩
  | ok root =>
    rw [hparse] at h
    dsimp only at h
    split at h
    · rename_i halt m' hrun
      cases halt with
      | error e' =>
        cases h
        exact .inr ⟨root, e', _, m', rfl, rfl, hrun⟩
      | overflow | unfinished => cases h
    · cases h

/-- No source text leads to an internal error. A compilation does not report one, whatever the
limits and whatever happens outside, and the run of a parsed text does not stop with one, wherever
it starts and however its loops are bounded. -/
theorem compileWith_kind_ne_internal (source : String) :
    (∀ options outside e, compileWith options outside source = .error (.error e) →
      e.kind ≠ .internal) ∧
    ∀ root, parse source = .ok root → ∀ passes m e m',
      Run.exec passes root m = .error (.error e) m' → e.fault.kind ≠ .internal := by
  have hrun : ∀ {root}, parse source = .ok root → ∀ passes,
      Run.FailsOnly (fun e => e.fault.Ordinary) (Run.exec passes root) :=
    fun hparse => Run.exec_failsOnly hparse fun _ _ _ hfault => hfault
  refine ⟨fun options outside e h => ?_, fun root hparse passes m e m' h => hrun hparse passes h⟩
  rcases compileWith_error h with ⟨e', -, rfl⟩ | ⟨root, e', m, m', hparse, rfl, hexec⟩
  · cases e' <;> simp [Error.kind]
  · exact hrun hparse _ hexec

/-- The budget stops the loop of a form after a pass that has added a field. -/
theorem compileWith_form_loop_exceeded :
    ∃ source root e m m', parse source = .ok root ∧
      compileWith ⟨some 1, none, none⟩ .still source = .error (.error (.runtime e)) ∧
      (Error.runtime e).kind ≠ .internal ∧
      Run.exec 1 root m = .error (.error e) m' ∧ e.fault.kind ≠ .internal := by
  have hparse : parse "\x7b\nform f\x7bfor true\x7b\nstring_field a\x7b\x7d\n\x7d\x7d\n\x7d" = .ok
      (.block ⟨6, 1⟩ [.form ⟨5, 2⟩ "f" [.loop ⟨4, 2⟩ (.bool ⟨0, 2⟩ true)
        (.block ⟨3, 2⟩ [.field ⟨1, 3⟩ .string "a" [], .blank ⟨2, 3⟩])]]) := by
    decide +kernel
  have hcompile : compileWith ⟨some 1, none, none⟩ .still
        "\x7b\nform f\x7bfor true\x7b\nstring_field a\x7b\x7d\n\x7d\x7d\n\x7d" =
      .error (.error (.runtime ⟨2, .iterationsExceeded 1⟩)) := by
    decide +kernel
  obtain ⟨hne, hne'⟩ := compileWith_kind_ne_internal _
  refine ⟨_, _, _, .start (.ofOptions ⟨some 1, none, none⟩ .still) .off, _, hparse, hcompile,
    hne _ _ _ hcompile, rfl, ?_⟩
  exact hne' _ hparse 1 (.start (.ofOptions ⟨some 1, none, none⟩ .still) .off) _ _ rfl

end FormScript
