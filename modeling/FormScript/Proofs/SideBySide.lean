import FormScript.Proofs.Limit
import FormScript.Proofs.Registration

/-!
# Forms resolved side by side

Two machines are twins if they show the same variables and have the same budget, in which there is
no signal and no clock. A `TwinRelation` is a relation between such machines that is kept when both
do the same, whatever they report. From related machines, computations that are `Run.InStep` end
alike, with the same result or for the same reason, and leave related machines.

A form is resolved in step with itself, and with the same form in which the lines of loops are
`Rearranged` (`Run.collectFields_inStep`). A pass goes over its block twice. It first runs the
assignments and passes over the fields, and then adds the fields and passes over the assignments, so
each time only the order of one sort of lines counts. So it does not matter where in a loop the
fields stand (`declareForm_rearranged`).
-/

namespace FormScript

open Node (HasRole)
open Grammar (FormContainer)

/-! ## Computations in step -/

/-- Two computations end with the same result or for the same reason, on related machines. -/
inductive Ending.Alike {α : Type} (R : Machine → Machine → Prop) : Ending α → Ending α → Prop where
  | ok {a : α} {m t : Machine} (h : R m t) : Alike R (.ok a m) (.ok a t)
  | error {e : Halt} {m t : Machine} (h : R m t) : Alike R (.error e m) (.error e t)

/-- Endings stay alike under a change to both machines that keeps them related. -/
theorem Ending.Alike.mapMachine {α : Type} {R : Machine → Machine → Prop} {r r' : Ending α}
    {f : Machine → Machine} (h : Alike R r r') (hf : ∀ {m t}, R m t → R (f m) (f t)) :
    Alike R (r.mapMachine f) (r'.mapMachine f) := by
  cases h with
  | ok h => exact .ok (hf h)
  | error h => exact .error (hf h)

/-- From related machines, two computations end alike. -/
def Run.InStep {α : Type} (R : Machine → Machine → Prop) (x y : Run α) : Prop :=
  ∀ ⦃m t : Machine⦄, R m t → Ending.Alike R (x m) (y t)

/-- A relation between machines with the same variables and the same budget, which only their loop
passes can use up. It is kept when both report something, write the same or count a pass. -/
structure TwinRelation (R : Machine → Machine → Prop) : Prop where
  scopes : ∀ {m t}, R m t → t.scopes = m.scopes
  budget : ∀ {m t}, R m t → t.budget = m.budget
  unwatched : ∀ {m t}, R m t → m.budget.Unwatched
  report : ∀ {m t}, R m t → ∀ log log', R { m with log := log } { t with log := log' }
  write : ∀ {m t}, R m t → ∀ scopes, R { m with scopes } { t with scopes }
  count : ∀ {m t b}, R m t → m.budget.count? = some b →
    R { m with budget := b } { t with budget := b }

namespace TwinRelation

variable {R : Machine → Machine → Prop} {m t : Machine}

/-- A report of the first machine leaves related machines related. -/
theorem reportLeft (hR : TwinRelation R) (h : R m t) (log : Log) : R { m with log } t :=
  hR.report h log t.log

/-- A report of the second machine leaves related machines related. -/
theorem reportRight (hR : TwinRelation R) (h : R m t) (log : Log) : R m { t with log } :=
  hR.report h m.log log

/-- No signal and no clock stops the second machine either. -/
theorem unwatchedRight (hR : TwinRelation R) (h : R m t) : t.budget.Unwatched :=
  hR.budget h ▸ hR.unwatched h

end TwinRelation

namespace Run

section
variable {α β : Type} {R : Machine → Machine → Prop} {x y : Run α}

/-- Computations stay in step one behind the other. -/
theorem InStep.bind {f g : α → Run β} (h : InStep R x y) (hf : ∀ a, InStep R (f a) (g a)) :
    InStep R (x >>= f) (y >>= g) := by
  intro m t hmt
  have hfirst := h hmt
  rw [bind_run, bind_run]
  generalize x m = r, y t = r' at hfirst ⊢
  cases hfirst with
  | ok hmt' => exact hf _ hmt'
  | error hmt' => exact .error hmt'

/-- Being in step is kept when computations are put together. -/
theorem inStep_congruence : Congruence (InStep R) where
  pure _ _ _ h := .ok h
  throw _ _ _ h := .error h
  bind := InStep.bind

/-- Any two reports are in step. -/
theorem record_inStep (hR : TwinRelation R) (e e' : Event) : InStep R (record e) (record e') :=
  fun _ _ h => .ok (hR.report h _ _)

/-- A quiet computation is in step with itself. -/
theorem Quiet.inStep (hR : TwinRelation R) (h : Quiet x) : InStep R x x := by
  induction h with
  | record e => exact record_inStep hR e e
  | bind _ _ hx hf => exact hx.bind hf
  | read f =>
    intro m t hmt
    change Ending.Alike R (ofExcept (f m.scopes) m) (ofExcept (f t.scopes) t)
    rw [hR.scopes hmt]
    cases f m.scopes with
    | ok a => exact .ok hmt
    | error e => exact .error hmt

/-- Writing a variable is in step with itself. -/
theorem assign_inStep (hR : TwinRelation R) (line : Nat) (name : String) (value : Value) :
    InStep R (assign line name value) (assign line name value) := by
  intro m t hmt
  change Ending.Alike R
    (ofExcept (locate line (m.scopes.assign name value).1)
      { m with scopes := (m.scopes.assign name value).2 })
    (ofExcept (locate line (t.scopes.assign name value).1)
      { t with scopes := (t.scopes.assign name value).2 })
  rw [hR.scopes hmt]
  have hwritten := hR.write hmt (m.scopes.assign name value).2
  cases locate line (m.scopes.assign name value).1 with
  | ok u => exact .ok hwritten
  | error e => exact .error hwritten

/-- An assignment is in step with itself. -/
theorem assignTo_inStep (hR : TwinRelation R) (target value : Node) :
    InStep R (assignTo target value) (assignTo target value) := by
  cases target with
  | ident o name =>
    exact ((eval_quiet value).inStep hR).bind fun v => assign_inStep hR o.line name v
  | _ => exact inStep_congruence.throw _

/-- Looks outside are in step at any two lines, since neither finds anything. -/
theorem checkBudget_inStep (hR : TwinRelation R) (line line' : Nat) :
    InStep R (checkBudget line) (checkBudget line') := by
  intro m t hmt
  rw [checkBudget_of_unwatched (hR.unwatched hmt), checkBudget_of_unwatched (hR.unwatchedRight hmt)]
  exact .ok hmt

/-- Counting a pass is in step with itself. -/
theorem tick_inStep (hR : TwinRelation R) (line : Nat) : InStep R (tick line) (tick line) := by
  intro m t hmt
  cases hcount : m.budget.count? with
  | none =>
    rw [tick_of_full line hcount, tick_of_full line (hR.budget hmt ▸ hcount)]
    exact .error hmt
  | some b =>
    have hcounted := hR.count hmt hcount
    have hright := tick_of_counted line (hR.unwatchedRight hmt) (hR.budget hmt ▸ hcount)
    rcases tick_of_counted line (hR.unwatched hmt) hcount with
      ⟨hwithin, hrun⟩ | ⟨limit, log, hlimit, hbeyond, hrun⟩ <;>
    rcases hright with ⟨hwithin', hrun'⟩ | ⟨limit', log', hlimit', hbeyond', hrun'⟩
    · rw [hrun, hrun']
      exact .ok hcounted
    · exact absurd (hwithin limit' hlimit') (Nat.not_le.2 hbeyond')
    · exact absurd (hwithin' limit hlimit) (Nat.not_le.2 hbeyond)
    · cases hlimit.symm.trans hlimit'
      rw [hrun, hrun']
      exact .error (hR.report hcounted log log')

/-- Computations in frames of their own are in step if they are without them. -/
theorem isolated_inStep (hR : TwinRelation R) (h : InStep R x y) :
    InStep R (isolated x) (isolated y) := by
  intro m t hmt
  have hinside : R { m with scopes := m.scopes.push } { t with scopes := t.scopes.push } := by
    rw [hR.scopes hmt]
    exact hR.write hmt m.scopes.push
  rw [isolated_run, isolated_run]
  refine (h hinside).mapMachine fun {m t} hmt => ?_
  rw [hR.scopes hmt]
  exact hR.write hmt m.scopes.pop

end

end Run

/-! ## Lines in another order -/

namespace Node

/-- Whether a node is an assignment. -/
def isAssignment : Node → Bool
  | assign _ _ _ => true
  | _ => false

/-- Whether a node declares a field. -/
def isFieldDeclaration : Node → Bool
  | field _ _ _ _ => true
  | _ => false

end Node

/-- The lines of a form's loop in another order. The assignments keep their order and the fields
keep theirs, and empty lines may stand anywhere or be missing. -/
structure Rearranged (lines lines' : List Node) : Prop where
  assignments : lines'.filter Node.isAssignment = lines.filter Node.isAssignment
  fields : lines'.filter Node.isFieldDeclaration = lines.filter Node.isFieldDeclaration
  admitted : ∀ n ∈ lines', FormContainer.loop.admits n = true

/-- A child of a form stays as it is, or is a loop and has a block with rearranged lines. -/
inductive RearrangedChild : Node → Node → Prop where
  | same (n : Node) : RearrangedChild n n
  | loop {lines lines' : List Node} (o o₁ o₂ : Origin) (condition : Node)
      (h : Rearranged lines lines') :
    RearrangedChild (.loop o condition (.block o₁ lines)) (.loop o condition (.block o₂ lines'))

/-- A loop of a form is over a block of lines that a form admits there. -/
theorem Node.HasRole.loop_child {o : Origin} {condition block : Node}
    (h : HasRole .child (.loop o condition block)) :
    Node.IsExpression condition ∧ ∃ o' lines, block = .block o' lines ∧
    (∀ n ∈ lines, HasRole .line n) ∧
      ∀ n ∈ lines, FormContainer.loop.admits n = true := by
  generalize hn : Node.loop o condition block = n at h
  cases h with
  | childField field =>
    cases field
    cases hn
  | childBlock _ _ container hcondition hblock hadmitted =>
    cases container with
    | branch => cases hn
    | loop =>
      cases hn
      cases hblock with
      | block _ hlines => exact ⟨hcondition, _, _, rfl, hlines, hadmitted⟩

/-- The lines of a form's loop are lines that it admits. -/
theorem admitted_of_child_loop {o o₁ : Origin} {condition : Node} {lines : List Node}
    (h : HasRole .child (.loop o condition (.block o₁ lines))) :
    ∀ n ∈ lines, FormContainer.loop.admits n = true := by
  obtain ⟨-, _, _, hblock, -, hadmitted⟩ := h.loop_child
  cases hblock
  exact hadmitted

/-- Lines that are admitted are rearranged as they stand. -/
theorem Rearranged.refl {lines : List Node} (h : ∀ n ∈ lines, FormContainer.loop.admits n = true) :
    Rearranged lines lines :=
  ⟨rfl, rfl, h⟩

namespace Run

variable {R : Machine → Machine → Prop} {passes : Nat}

/-- A line that does not assign is run for nothing but a report. -/
theorem execAll_cons_of_not_assignment {n : Node} {m : Machine}
    (hadmitted : FormContainer.loop.admits n = true) (hn : n.isAssignment = false)
    (hunwatched : m.budget.Unwatched) (rest : List Node) :
    ∃ log, execAll passes (n :: rest) m = execAll passes rest { m with log } := by
  rw [execAll, bind_ok (checkBudget_of_unwatched hunwatched n.line)]
  cases n with
  | field | blank =>
    rw [exec]
    exact ⟨_, rfl⟩
  | assign => cases hn
  | _ => cases hadmitted

/-- A line that is no assignment makes no difference to the first of two blocks. -/
theorem InStep.passOverLeft (hR : TwinRelation R) {n : Node} {rest : List Node} {y : Run Unit}
    (h : InStep R (execAll passes rest) y) (hadmitted : FormContainer.loop.admits n = true)
    (hn : n.isAssignment = false) : InStep R (execAll passes (n :: rest)) y := by
  intro m t hmt
  obtain ⟨log, hrun⟩ := execAll_cons_of_not_assignment hadmitted hn (hR.unwatched hmt) rest
  rw [hrun]
  exact h (hR.reportLeft hmt log)

/-- A line that is no assignment makes no difference to the second of two blocks. -/
theorem InStep.passOverRight (hR : TwinRelation R) {n : Node} {rest : List Node} {x : Run Unit}
    (h : InStep R x (execAll passes rest)) (hadmitted : FormContainer.loop.admits n = true)
    (hn : n.isAssignment = false) : InStep R x (execAll passes (n :: rest)) := by
  intro m t hmt
  obtain ⟨log, hrun⟩ := execAll_cons_of_not_assignment hadmitted hn (hR.unwatchedRight hmt) rest
  rw [hrun]
  exact h (hR.reportRight hmt log)

/-- Running an assignment is in step with itself. -/
theorem exec_assignment_inStep (hR : TwinRelation R) {n : Node} (h : n.isAssignment = true) :
    InStep R (exec passes n) (exec passes n) := by
  cases n with
  | assign o target value =>
    rw [exec]
    exact (record_inStep hR _ _).bind fun _ => assignTo_inStep hR target value
  | _ => cases h

/-- Lines with the same assignments are run in step. -/
theorem execAll_inStep (hR : TwinRelation R) {lines lines' : List Node}
    (hlines : ∀ n ∈ lines, FormContainer.loop.admits n = true)
    (hlines' : ∀ n ∈ lines', FormContainer.loop.admits n = true)
    (h : lines'.filter Node.isAssignment = lines.filter Node.isAssignment) :
    InStep R (execAll passes lines) (execAll passes lines') := by
  -- The lines that do not assign are passed over on either side until both sides come to the same
  -- assignment.
  induction lines generalizing lines' with
  | nil =>
    induction lines' with
    | nil =>
      rw [execAll]
      exact inStep_congruence.pure ()
    | cons n' rest' ih' =>
      rw [List.forall_mem_cons] at hlines'
      cases hn' : n'.isAssignment with
      | true => simp [hn'] at h
      | false =>
        rw [List.filter_cons_of_neg (by simp [hn'])] at h
        exact (ih' hlines'.2 h).passOverRight hR hlines'.1 hn'
  | cons n rest ih =>
    rw [List.forall_mem_cons] at hlines
    cases hn : n.isAssignment with
    | false =>
      rw [List.filter_cons_of_neg (by simp [hn])] at h
      exact (ih hlines.2 hlines' h).passOverLeft hR hlines.1 hn
    | true =>
      rw [List.filter_cons_of_pos hn] at h
      induction lines' with
      | nil => cases h
      | cons n' rest' ih' =>
        rw [List.forall_mem_cons] at hlines'
        cases hn' : n'.isAssignment with
        | false =>
          rw [List.filter_cons_of_neg (by simp [hn'])] at h
          exact (ih' hlines'.2 h).passOverRight hR hlines'.1 hn'
        | true =>
          rw [List.filter_cons_of_pos hn'] at h
          obtain ⟨rfl, hrest⟩ := List.cons.inj h
          rw [execAll, execAll]
          refine (checkBudget_inStep hR _ _).bind fun _ => ?_
          exact (exec_assignment_inStep hR hn).bind fun _ => ih hlines.2 hlines'.2 hrest

/-- The fields of a block are added without regard to its other lines. -/
theorem addFields_filter (form : String) (pass : Option Nat) {lines : List Node}
    (hlines : ∀ n ∈ lines, FormContainer.loop.admits n = true) (fields : FieldList) :
    addFields form pass (lines.filter Node.isFieldDeclaration) fields =
      addFields form pass lines fields := by
  induction lines generalizing fields with
  | nil => rfl
  | cons n rest ih =>
    rw [List.forall_mem_cons] at hlines
    have ih := ih hlines.2
    cases n with
    | field o kind name properties =>
      rw [List.filter_cons_of_pos rfl, addFields, addFields]
      simp only [ih]
    | assign | blank =>
      rw [List.filter_cons_of_neg (by simp [Node.isFieldDeclaration]), addFields]
      exact ih fields
    | _ => cases hlines.1

/-- Rearranged lines add the same fields in the same order. -/
theorem addFields_rearranged (form : String) (pass : Option Nat) {lines lines' : List Node}
    (hlines : ∀ n ∈ lines, FormContainer.loop.admits n = true) (h : Rearranged lines lines')
    (fields : FieldList) :
    addFields form pass lines' fields = addFields form pass lines fields := by
  rw [← addFields_filter form pass h.admitted, h.fields, addFields_filter form pass hlines]

/-- A pass over a block goes in step with one over the rearranged block. -/
theorem pass_inStep (hR : TwinRelation R) (passes : Nat) (form : String) (pass : Nat)
    (fields : FieldList) (o₁ o₂ : Origin) {lines lines' : List Node}
    (hlines : ∀ n ∈ lines, FormContainer.loop.admits n = true)
    (h : Rearranged lines lines') :
    InStep R
      (do
        exec passes (.block o₁ lines)
        addBlock form (some pass) fields (.block o₁ lines))
      (do
        exec passes (.block o₂ lines')
        addBlock form (some pass) fields (.block o₂ lines')) := by
  rw [exec, exec, addBlock, addBlock, addFields_rearranged form (some pass) hlines h]
  refine InStep.bind ?_ fun _ => (addFields_quiet _ _ _ _).inStep hR
  exact (record_inStep hR _ _).bind fun _ => execAll_inStep hR hlines h.admitted h.assignments

/-! ## Forms -/

/-- From children of which one is a loop, the fields are collected in step with those from the
rearranged loop, if that holds of the children behind it. -/
theorem collectFields_loop_inStep (hR : TwinRelation R) (form : String) (o o₁ o₂ : Origin)
    (condition : Node) {lines lines' : List Node}
    (hlines : ∀ n ∈ lines, FormContainer.loop.admits n = true) (h : Rearranged lines lines')
    {rest rest' : List Node}
    (hrest : ∀ fields,
      InStep R (collectFields passes form rest fields) (collectFields passes form rest' fields))
    (fields : FieldList) :
    InStep R (collectFields passes form (.loop o condition (.block o₁ lines) :: rest) fields)
      (collectFields passes form (.loop o condition (.block o₂ lines') :: rest') fields) := by
  rw [collectFields, collectFields]
  refine (isolated_inStep hR ?_).bind hrest
  have hloop := inStep_congruence.whileHolds (tick_inStep hR condition.line)
    ((holds_quiet "for" condition).inStep hR)
    (fun pass fields => pass_inStep hR passes form pass fields o₁ o₂ hlines h) passes 0 fields
  refine hloop.bind fun r => ?_
  exact (record_inStep hR _ _).bind fun _ => inStep_congruence.pure r.2

/-- The fields of a form are collected in step with those of the form in which the lines of loops
are rearranged. -/
theorem collectFields_inStep (hR : TwinRelation R) (passes : Nat) (form : String)
    {body body' : List Node} (hbody : ∀ n ∈ body, HasRole .child n)
    (h : List.Forall₂ RearrangedChild body body') (fields : FieldList) :
    InStep R (collectFields passes form body fields) (collectFields passes form body' fields) := by
  induction h generalizing fields with
  | nil =>
    rw [collectFields]
    exact inStep_congruence.pure fields
  | @cons child child' rest rest' hchild _ ih =>
    rw [List.forall_mem_cons] at hbody
    have hrest := ih hbody.2
    cases hchild with
    | loop o o₁ o₂ condition hlines =>
      have hadmitted := admitted_of_child_loop hbody.1
      exact collectFields_loop_inStep hR form o o₁ o₂ condition hadmitted hlines hrest fields
    | same =>
      cases hbody.1 with
      | childField field =>
        cases field
        rw [collectFields, collectFields]
        exact ((addField_quiet _ _ _ _ _ _ _).inStep hR).bind hrest
      | @childBlock condition lines o o' container _ _ admitted =>
        cases container with
        | branch =>
          rw [FormContainer.toNode, collectFields, collectFields]
          refine ((holds_quiet "if" condition).inStep hR).bind fun b => ?_
          split
          · exact ((addBlock_quiet _ _ _ _).inStep hR).bind hrest
          · exact hrest fields
        | loop =>
          exact collectFields_loop_inStep hR form o o' o' condition admitted
            (.refl admitted) hrest fields

end Run

/-! ## Machines that differ in their logs -/

/-- How a computation ends, without what it has reported. -/
def Ending.unreported {α : Type} (r : Ending α) : Ending α :=
  r.mapMachine fun m => { m with log := .off }

/-- Machines that differ in their logs at most. Neither a signal nor a clock stops them. -/
def Machine.SameButLog (m t : Machine) : Prop :=
  m.budget.Unwatched ∧ ∃ log, t = { m with log }

open Machine (SameButLog)

/-- Machines that differ in their logs only stay so when both do the same. -/
theorem sameButLog_twinRelation : TwinRelation SameButLog where
  scopes := by
    rintro m _ ⟨-, log, rfl⟩
    rfl
  budget := by
    rintro m _ ⟨-, log, rfl⟩
    rfl
  unwatched h := h.1
  report := by
    rintro m _ ⟨hunwatched, -, rfl⟩ log log'
    exact ⟨hunwatched, log', rfl⟩
  write := by
    rintro m _ ⟨hunwatched, log, rfl⟩ scopes
    exact ⟨hunwatched, log, rfl⟩
  count := by
    rintro m _ b ⟨hunwatched, log, rfl⟩ hcount
    refine ⟨?_, log, rfl⟩
    rw [(Budget.count?_eq_some hcount).1]
    exact hunwatched

/-- Endings that are alike up to the logs are the same without what was reported. -/
theorem Ending.Alike.unreported_eq {α : Type} {r r' : Ending α} (h : Alike SameButLog r r') :
    r'.unreported = r.unreported := by
  cases h with
  | ok h =>
    obtain ⟨-, log, rfl⟩ := h
    rfl
  | error h =>
    obtain ⟨-, log, rfl⟩ := h
    rfl

/-- Taking in a form is in step with itself. -/
theorem Run.registerForm_inStep (name : String) (line : Nat) (fields : FieldList) :
    InStep SameButLog (registerForm name line fields) (registerForm name line fields) := by
  have hR := sameButLog_twinRelation
  have hregister : ∀ form, InStep SameButLog (register form) (register form) := by
    rintro form m _ ⟨hunwatched, log, rfl⟩
    exact .ok ⟨hunwatched, log, rfl⟩
  refine (record_inStep hR _ _).bind fun _ => (hregister _).bind fun replaced => ?_
  split
  · exact record_inStep hR _ _
  · exact inStep_congruence.pure ()

/-- It does not matter where in the loops of a form the fields stand. In whatever scopes, with
whatever forms and within whatever limit on loop passes it is declared, a form of a program and the
same form with rearranged lines in its loops have the same result, with the same form stored and the
same passes counted, or fail with the same error. -/
theorem declareForm_rearranged {source : String} {root : Node} (hparse : parse source = .ok root)
    {o : Origin} {name : String} {body : List Node} (hform : .form o name body ∈ root.walk)
    {body' : List Node} (h : List.Forall₂ RearrangedChild body body') (passes line : Nat)
    {m : Machine} (hunwatched : m.budget.Unwatched) :
    Ending.unreported (Run.declareForm passes name body' line m) =
      Ending.unreported (Run.declareForm passes name body line m) := by
  have hbody : ∀ child ∈ body, HasRole .child child :=
    (Grammar.hasRole_of_parse hparse).formShaped _ hform
  have hcollect := Run.collectFields_inStep sameButLog_twinRelation passes name hbody h .empty
  have hself : SameButLog m m := ⟨hunwatched, m.log, rfl⟩
  exact (hcollect.bind (fun fields => Run.registerForm_inStep name line fields) hself).unreported_eq

namespace Sample

/-- The form is a node of the program. -/
theorem form_mem_root : .form ⟨9, 3⟩ "f" body ∈ root.walk := by
  simp [root, Node.walk, Node.walkAll]

/-- The body of the form with the field in front of the assignment, and an empty line between
them. -/
def rearrangedBody : List Node :=
  [.loop ⟨8, 3⟩ (.ident ⟨2, 3⟩ "b") (.block ⟨7, 3⟩ [.field ⟨6, 5⟩ .string "a" [], .blank ⟨13, 6⟩,
    .assign ⟨5, 4⟩ (.ident ⟨3, 4⟩ "b") (.bool ⟨4, 4⟩ false)])]

/-- The field may stand in front of the assignment, with an empty line between them. -/
theorem rearranged_body : List.Forall₂ RearrangedChild body rearrangedBody :=
  .cons (.loop _ _ _ _ ⟨rfl, rfl, by simp [FormContainer.admits]⟩) .nil

end Sample

open Sample in
/-- The rearranged form leaves the machine of the sample program. -/
theorem declareForm_rearranged_sample : List.Forall₂ RearrangedChild body rearrangedBody ∧
    entry.budget.Unwatched ∧
    Ending.unreported (Run.declareForm 1 "f" rearrangedBody 3 entry) = .ok () exit := by
  have hunwatched : entry.budget.Unwatched := ⟨rfl, rfl⟩
  refine ⟨rearranged_body, hunwatched, ?_⟩
  rw [declareForm_rearranged parse_source form_mem_root rearranged_body 1 3 hunwatched,
    declareForm_entry]
  rfl

end FormScript
