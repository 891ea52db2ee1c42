import FormScript.Proofs.Copies
import FormScript.Proofs.Ending
import FormScript.Proofs.Equality
import FormScript.Proofs.Resolution
import FormScript.Proofs.Shape

/-!
# Forms and their unrollings

`UnrollsAll entry body fields n` says what the children of a form stand for, in scopes `entry`,
without frames and without a run: a field for itself, an `if` for the fields of its block if its
condition is true, and a `for` for the blocks of its passes. The passes are described by the scopes
between them (`Passes`): the first ones are a copy of `entry`, the body's assignments lead from each
to the next, the condition is true in all but the last, and `n` counts them over all loops. The run
works on an isolated frame in place of the copy, and both show the same variables all along, so a
declaration that succeeds stores the unrolling of its children (`Run.declareForm_ok`).
-/

namespace FormScript

/-! ## Assignments on a copy of the scopes -/

/-- The name and the value of an assignment. -/
def Node.assignment? : Node → Option (String × Node)
  | .assign _ (.ident _ name) value => some (name, value)
  | _ => none

namespace Scopes

/-- The scopes behind an assignment, if it succeeds. -/
def write? (s : Scopes) (name : String) (value : Node) : Option Scopes :=
  match value.eval s with
  | .ok v =>
    match s.assign name v with
    | (.ok (), s') => some s'
    | (.error _, _) => none
  | .error _ => none

/-- The scopes behind the assignments of a block, executed in order, if they all succeed. -/
def executed? (s : Scopes) (body : List Node) : Option Scopes :=
  (body.filterMap Node.assignment?).foldlM
    (fun s assignment => s.write? assignment.1 assignment.2) s

/-- The first assignment is executed before the others. -/
theorem executed?_assign (s : Scopes) (o o' : Origin) (name : String) (value : Node)
    (body : List Node) :
    s.executed? (.assign o (.ident o' name) value :: body) =
      (s.write? name value).bind fun s => s.executed? body :=
  rfl

section
variable {s t s' : Scopes}

/-- An assignment succeeds if its value can be computed and written. -/
theorem write?_eq_some_iff {name : String} {value : Node} :
    s.write? name value = some s' ↔ ∃ v, value.eval s = .ok v ∧ s.assign name v = (.ok (), s') := by
  unfold write?
  cases value.eval s with
  | error e => simp
  | ok v =>
    rcases h : s.assign name v with ⟨fault | u, s₁⟩
    · simp [h]
    · simp [h]

/-- Scopes that show the same variables do so behind an assignment. -/
theorem Alike.write? {name : String} {value : Node} (h : s.Alike t)
    (hs : s.write? name value = some s') : ∃ t', t.write? name value = some t' ∧ s'.Alike t' := by
  obtain ⟨v, hv, hassign⟩ := write?_eq_some_iff.1 hs
  obtain ⟨t', ht, halike⟩ := h.assign hassign
  rw [value.eval_alike h] at hv
  exact ⟨t', write?_eq_some_iff.2 ⟨v, hv, ht⟩, halike⟩

/-- Assignments keep scopes alike. -/
theorem Alike.executed? {body : List Node} (h : s.Alike t) (hs : s.executed? body = some s') :
    ∃ t', t.executed? body = some t' ∧ s'.Alike t' := by
  unfold Scopes.executed? at hs ⊢
  generalize body.filterMap Node.assignment? = assignments at hs ⊢
  induction assignments generalizing s t with
  | nil =>
    cases hs
    exact ⟨t, rfl, h⟩
  | cons assignment rest ih =>
    rw [List.foldlM_cons] at hs ⊢
    obtain ⟨s₁, hwrite, hs⟩ := Option.bind_eq_some_iff.1 hs
    obtain ⟨t₁, ht₁, h₁⟩ := h.write? hwrite
    rw [ht₁]
    exact ih h₁ hs

end

end Scopes

/-- Scopes that are alike resolve the fields of a block alike. -/
theorem fieldsIn_alike {s t : Scopes} (h : s.Alike t) (pass : Option Nat) (body : List Node) :
    fieldsIn s pass body = fieldsIn t pass body := by
  have hitem : Node.itemText? s = Node.itemText? t := by
    funext n
    cases n with
    | ident o name => rw [Node.itemText?, Node.itemText?, h name]
    | _ => rfl
  have hoptions : Node.optionsIn? s = Node.optionsIn? t := by
    funext n
    rw [Node.optionsIn?, Node.optionsIn?, hitem]
  have hfield : Node.fieldIn? s pass = Node.fieldIn? t pass := by
    funext n
    cases n with
    | field o kind name properties =>
      rw [Node.fieldIn?, Node.fieldIn?, FieldProperties.updated, FieldProperties.updated, hoptions]
    | _ => rfl
  rw [fieldsIn, fieldsIn, hfield]

/-! ## Unrollings -/

/-- The scopes between the `n` passes of a loop over `body`: they start with `entry`, the
assignments of the body lead from each to the next, and the condition is true in all of them but the
last. -/
structure Passes (condition : Node) (body : List Node) (entry : Scopes) (n : Nat)
    (copies : Nat → Scopes) :
    Prop where
  start : copies 0 = entry
  executed : ∀ k < n, (copies k).executed? body = some (copies (k + 1))
  holds : ∀ k < n, condition.eval (copies k) = .ok (.bool true)
  stop : condition.eval (copies n) = .ok (.bool false)

/-- A child of a form stands for fields, in the scopes at the entry of the form, and makes a number
of passes. -/
inductive Unrolls (entry : Scopes) : Node → List FormField → Nat → Prop where
  | field {n : Node} {field : FormField} (h : n.fieldIn? entry none = some field) :
    Unrolls entry n [field] 0
  | taken {o o' : Origin} {condition : Node} {body : List Node} {negative : Option Node}
      (h : condition.eval entry = .ok (.bool true)) :
    Unrolls entry (.branch o condition (.block o' body) negative) (fieldsIn entry none body) 0
  | skipped {o o' : Origin} {condition : Node} {body : List Node} {negative : Option Node}
      (h : condition.eval entry = .ok (.bool false)) :
    Unrolls entry (.branch o condition (.block o' body) negative) [] 0
  | loop {o o' : Origin} {condition : Node} {body : List Node} {n : Nat} {copies : Nat → Scopes}
      (passes : Passes condition body entry n copies) :
    Unrolls entry (.loop o condition (.block o' body))
      ((List.range n).flatMap fun k => fieldsIn (copies (k + 1)) (some (k + 1)) body) n

/-- Children of a form stand for the fields of each, in order, and make the passes of all. -/
inductive UnrollsAll (entry : Scopes) : List Node → List FormField → Nat → Prop where
  | nil : UnrollsAll entry [] [] 0
  | cons {child : Node} {rest : List Node} {fields fields' : List FormField} {n n' : Nat}
      (first : Unrolls entry child fields n) (others : UnrollsAll entry rest fields' n') :
    UnrollsAll entry (child :: rest) (fields ++ fields') (n + n')

namespace Passes

variable {condition : Node} {body : List Node} {entry : Scopes} {n : Nat} {copies : Nat → Scopes}

/-- A sequence of scopes with other ones in front. -/
def front (entry : Scopes) (copies : Nat → Scopes) : Nat → Scopes
  | 0 => entry
  | k + 1 => copies k

/-- A condition that is false at the entry makes no pass. -/
theorem zero (h : condition.eval entry = .ok (.bool false)) :
    Passes condition body entry 0 fun _ => entry where
  start := rfl
  executed := nofun
  holds := nofun
  stop := h

/-- A condition that is true makes one pass more than there are behind the first one. -/
theorem succ {next : Scopes} (hholds : condition.eval entry = .ok (.bool true))
    (hexecuted : entry.executed? body = some next) (rest : Passes condition body next n copies) :
    Passes condition body entry (n + 1) (front entry copies) where
  start := rfl
  executed k hk := by
    cases k with
    | zero =>
      rw [front, front, rest.start]
      exact hexecuted
    | succ k => exact rest.executed k (Nat.lt_of_succ_lt_succ hk)
  holds k hk := by
    cases k with
    | zero => exact hholds
    | succ k => exact rest.holds k (Nat.lt_of_succ_lt_succ hk)
  stop := rest.stop

/-- Two descriptions of the passes of a loop agree on the scopes as far as both go. -/
theorem copies_eq {n' : Nat} {copies' : Nat → Scopes} (h : Passes condition body entry n copies)
    (h' : Passes condition body entry n' copies') {k : Nat} (hk : k ≤ n) (hk' : k ≤ n') :
    copies k = copies' k := by
  induction k with
  | zero => rw [h.start, h'.start]
  | succ k ih =>
    have hnext := h.executed k hk
    rw [ih (Nat.le_of_succ_le hk) (Nat.le_of_succ_le hk'), h'.executed k hk'] at hnext
    exact (Option.some.inj hnext).symm

/-- No passes can be more than others over the same loop. -/
theorem le_of_passes {n' : Nat} {copies' : Nat → Scopes} (h : Passes condition body entry n copies)
    (h' : Passes condition body entry n' copies') : n ≤ n' := by
  rcases Nat.lt_or_ge n' n with hlt | hge
  · have hstop := h'.stop
    rw [← h.copies_eq h' (Nat.le_of_lt hlt) (Nat.le_refl n'), h.holds n' hlt] at hstop
    cases hstop
  · exact hge

end Passes

/-- A child stands for one list of fields only. -/
theorem Unrolls.unique {entry : Scopes} {child : Node} {fields fields' : List FormField}
    {n n' : Nat} (h : Unrolls entry child fields n) (h' : Unrolls entry child fields' n') :
    fields = fields' ∧ n = n' := by
  cases h with
  | field h =>
    cases h' with
    | field h' =>
      cases h.symm.trans h'
      exact ⟨rfl, rfl⟩
    | taken | skipped | loop => cases h
  | taken h =>
    cases h' with
    | field h' => cases h'
    | taken => exact ⟨rfl, rfl⟩
    | skipped h' => cases h.symm.trans h'
  | skipped h =>
    cases h' with
    | field h' => cases h'
    | taken h' => cases h.symm.trans h'
    | skipped => exact ⟨rfl, rfl⟩
  | loop passes =>
    cases h' with
    | field h' => cases h'
    | loop passes' =>
      obtain rfl := Nat.le_antisymm (passes.le_of_passes passes') (passes'.le_of_passes passes)
      rw [List.flatMap_def, List.flatMap_def]
      refine ⟨congrArg List.flatten (List.map_congr_left fun k hk => ?_), rfl⟩
      have hk : k + 1 ≤ n := List.mem_range.1 hk
      rw [passes.copies_eq passes' hk hk]

/-- Children of a form stand for one list of fields and make one number of passes. -/
theorem UnrollsAll.unique {entry : Scopes} {body : List Node} {fields fields' : List FormField}
    {n n' : Nat} (h : UnrollsAll entry body fields n) (h' : UnrollsAll entry body fields' n') :
    fields = fields' ∧ n = n' := by
  induction h generalizing fields' n' with
  | nil =>
    cases h'
    exact ⟨rfl, rfl⟩
  | cons first _ ih =>
    cases h' with
    | cons first' others' =>
      obtain ⟨rfl, rfl⟩ := first.unique first'
      obtain ⟨rfl, rfl⟩ := ih others'
      exact ⟨rfl, rfl⟩

/-! ## Runs of forms -/

/-- A condition that could be asked for has a truth value. -/
theorem Node.holds_ok {s : Scopes} {construct : String} {condition : Node} {b : Bool}
    (h : condition.holds s construct = .ok b) : condition.eval s = .ok (.bool b) := by
  obtain ⟨v, hv, h⟩ := exists_of_bind_eq_ok h
  rw [hv]
  cases v with
  | bool b' =>
    cases h
    rfl
  | int | string => cases h

namespace Run

open Node (IsField HasRole)
open Grammar (FormContainer)

variable {m m' : Machine}

/-- A run that has written a variable has changed the scopes only. -/
theorem assign_ok {line : Nat} {name : String} {value : Value}
    (h : assign line name value m = .ok () m') :
    ∃ scopes, m.scopes.assign name value = (.ok (), scopes) ∧ m' = { m with scopes } := by
  obtain ⟨hresult, rfl⟩ := ofExcept_ok (x := locate line (m.scopes.assign name value).1) h
  exact ⟨_, Prod.ext (locate_ok hresult) rfl, rfl⟩

/-- A look before a statement changes the budget alone, and spends nothing. -/
theorem checkBudget_ok {line : Nat} (h : checkBudget line m = .ok () m') :
    ∃ budget, m.budget.Spent 0 budget ∧ m' = { m with budget } := by
  have hspent := checkBudget_spent h
  rcases checkBudget_cases line m with ⟨-, hrun⟩ | ⟨fault, log, -, hrun⟩
  · cases hrun.symm.trans h
    exact ⟨_, hspent, rfl⟩
  · cases hrun.symm.trans h

/-- A pass that is made changes the budget alone, and is spent. -/
theorem tick_ok_eq {line : Nat} (h : tick line m = .ok () m') :
    ∃ budget, m.budget.Spent 1 budget ∧ m' = { m with budget } := by
  have hspent := (tick_ok h).2
  have hticks := tick_ticks line m
  rw [h] at hticks
  cases hticks with
  | made => exact ⟨_, hspent, rfl⟩

/-- An assignment writes what its value is at that moment. -/
theorem exec_assign_ok {passes : Nat} {o : Origin} {target value : Node}
    (hline : HasRole .line (.assign o target value))
    (h : exec passes (.assign o target value) m = .ok () m') :
    ∃ o' name scopes log, target = .ident o' name ∧ m.scopes.write? name value = some scopes ∧
      m' = { m with scopes, log } := by
  cases hline with
  | field field => cases field
  | assign _ o' name _ =>
    rw [exec] at h
    obtain ⟨_, m₁, hrecord, h⟩ := exists_of_bind_ok h
    cases hrecord
    obtain ⟨v, m₂, hread, h⟩ := exists_of_bind_ok h
    obtain ⟨hvalue, rfl⟩ := ofExcept_ok (x := value.eval m.scopes) hread
    obtain ⟨scopes, hassign, rfl⟩ := assign_ok h
    exact ⟨o', name, scopes, _, rfl, Scopes.write?_eq_some_iff.2 ⟨v, hvalue, hassign⟩, rfl⟩

/-- The lines of a form's block are run for their assignments: nothing else changes but the log and
what was seen outside. -/
theorem execAll_ok {container : FormContainer} {passes : Nat} {body : List Node}
    (hlines : ∀ n ∈ body, HasRole .line n) (hadmitted : ∀ n ∈ body, container.admits n = true)
    (h : execAll passes body m = .ok () m') :
    ∃ scopes log budget, m.scopes.executed? body = some scopes ∧ m.budget.Spent 0 budget ∧
      m' = { m with scopes, log, budget } := by
  induction body generalizing m with
  | nil =>
    rw [execAll] at h
    cases h
    exact ⟨_, _, _, rfl, .refl _, rfl⟩
  | cons n body ih =>
    rw [List.forall_mem_cons] at hlines hadmitted
    rw [execAll] at h
    obtain ⟨_, m₁, hcheck, h⟩ := exists_of_bind_ok h
    obtain ⟨budget₁, hlooked, rfl⟩ := checkBudget_ok hcheck
    obtain ⟨_, m₂, hline, h⟩ := exists_of_bind_ok h
    cases n with
    | field | blank =>
      rw [exec] at hline
      cases hline
      obtain ⟨scopes, log, budget, hexecuted, hspent, rfl⟩ := ih hlines.2 hadmitted.2 h
      exact ⟨scopes, log, budget, hexecuted, hlooked.trans hspent, rfl⟩
    | assign o target value =>
      obtain ⟨o', name, scopes₁, log₁, rfl, hwrite, rfl⟩ := exec_assign_ok hlines.1 hline
      obtain ⟨scopes, log, budget, hexecuted, hspent, rfl⟩ := ih hlines.2 hadmitted.2 h
      refine ⟨scopes, log, budget, ?_, hlooked.trans hspent, rfl⟩
      rw [Scopes.executed?_assign, hwrite]
      exact hexecuted
    | _ => cases hadmitted.1

/-- A pass through a form's loop executes the assignments of the block and pushes its fields. -/
theorem pass_ok {container : FormContainer} {passes pass : Nat} {form : String} {o : Origin}
    {body : List Node} {fields fields' : FieldList} (hlines : ∀ n ∈ body, HasRole .line n)
    (hadmitted : ∀ n ∈ body, container.admits n = true)
    (h : (do
      exec passes (.block o body)
      addBlock form (some pass) fields (.block o body)) m = .ok fields' m') :
    ∃ scopes log budget, m.scopes.executed? body = some scopes ∧ m.budget.Spent 0 budget ∧
      m' = { m with scopes, log, budget } ∧
      (fieldsIn scopes (some pass) body).foldlM FieldList.push? fields = some fields' := by
  obtain ⟨_, m₁, hexec, h⟩ := exists_of_bind_ok h
  rw [exec] at hexec
  obtain ⟨_, m₂, hrecord, hexec⟩ := exists_of_bind_ok hexec
  cases hrecord
  obtain ⟨scopes, log, budget, hexecuted, hspent, rfl⟩ := execAll_ok hlines hadmitted hexec
  obtain ⟨log', rfl⟩ := (addFields_quiet _ _ _ _).ok h
  have hfields := addFields_ok h
  exact ⟨scopes, log', budget, hexecuted, hspent, rfl, hfields⟩

/-- A form's loop that is over has made the passes that its condition asks for on a copy of the
scopes. The copy and the frame of the loop show the same variables before each pass. -/
theorem whileHolds_ok {container : FormContainer} {bound : Nat} {form : String} {condition : Node}
    {o : Origin} {body : List Node} (hlines : ∀ n ∈ body, HasRole .line n)
    (hadmitted : ∀ n ∈ body, container.admits n = true) {count : Nat} {fields' : FieldList}
    (passes : Nat) {done : Nat} {fields : FieldList} {m : Machine} {copy : Scopes}
    (halike : m.scopes.Alike copy)
    (h : whileHolds condition.line (holds "for" condition)
      (fun pass fields => do
        exec bound (.block o body)
        addBlock form (some pass) fields (.block o body))
      passes done fields m = .ok (count, fields') m') :
    ∃ n copies scopes log budget, Passes condition body copy n copies ∧ m.budget.Spent n budget ∧
      m' = { m with scopes, log, budget } ∧
      ((List.range n).flatMap
        fun k => fieldsIn (copies (k + 1)) (some (done + (k + 1))) body).foldlM
          FieldList.push? fields = some fields' := by
  rw [whileHolds_run] at h
  split at h
  next => cases h
  next hholds =>
    cases h
    have hstop := Node.holds_ok hholds
    rw [condition.eval_alike halike] at hstop
    exact ⟨0, _, _, _, _, .zero hstop, .refl _, rfl, rfl⟩
  next hholds =>
    have hholds := Node.holds_ok hholds
    rw [condition.eval_alike halike] at hholds
    split at h
    next => cases h
    next m₁ ticked =>
      cases passes with
      | zero => cases h
      | succ passes =>
        obtain ⟨budget₁, hticked, rfl⟩ := tick_ok_eq ticked
        obtain ⟨fields₁, m₂, hpass, h⟩ := exists_of_bind_ok h
        obtain ⟨scopes, log, budget₂, hexecuted, hlooked, rfl, hpushed⟩ :=
          pass_ok hlines hadmitted hpass
        obtain ⟨copy₁, hcopy, halike₁⟩ := halike.executed? hexecuted
        obtain ⟨n, copies, scopes', log', budget, hpasses, hspent, rfl, hrest⟩ :=
          whileHolds_ok hlines hadmitted passes halike₁ h
        refine ⟨n + 1, Passes.front copy copies, scopes', log', budget,
          hpasses.succ hholds hcopy, ?_, rfl, ?_⟩
        · have hpassed := hlooked.trans hspent
          rw [Nat.zero_add] at hpassed
          rw [Nat.add_comm n 1]
          exact hticked.trans hpassed
        · have hfirst : fieldsIn (Passes.front copy copies 1) (some (done + 1)) body =
              fieldsIn scopes (some (done + 1)) body := by
            rw [Passes.front, hpasses.start, fieldsIn_alike halike₁]
          have hnumber : ∀ k, done + (k + 1 + 1) = done + 1 + (k + 1) := fun k => by omega
          rw [List.range_succ_eq_map, List.flatMap_cons, List.flatMap_map, List.foldlM_append,
            hfirst, hpushed]
          simp only [Passes.front, Nat.succ_eq_add_one, hnumber]
          exact hrest

/-- What is collected from a child of a form and those behind it is its unrolling, and then
theirs. -/
def Collects (passes : Nat) (form : String) (child : Node) : Prop :=
  ∀ ⦃rest : List Node⦄ ⦃fields fields' : FieldList⦄ ⦃m m' : Machine⦄,
    collectFields passes form (child :: rest) fields m = .ok fields' m' →
    ∃ news n log budget fields₁, Unrolls m.scopes child news n ∧
      news.foldlM FieldList.push? fields = some fields₁ ∧ m.budget.Spent n budget ∧
      collectFields passes form rest fields₁ { m with log, budget } = .ok fields' m'

/-- A run that has asked for a condition has changed nothing. -/
theorem holds_ok {construct : String} {condition : Node} {b : Bool}
    (h : holds construct condition m = .ok b m') :
    condition.eval m.scopes = .ok (.bool b) ∧ m' = m := by
  obtain ⟨hholds, rfl⟩ := ofExcept_ok (x := condition.holds m.scopes construct) h
  exact ⟨Node.holds_ok hholds, rfl⟩

/-- A run in a frame of its own that succeeds has done so on scopes with a new frame. -/
theorem isolated_ok {α : Type} {x : Run α} {a : α} (h : isolated x m = .ok a m') :
    ∃ m₁, x { m with scopes := m.scopes.push } = .ok a m₁ ∧
    m' = { m₁ with scopes := m₁.scopes.pop } := by
  unfold isolated at h
  split at h
  next hx =>
    cases h
    exact ⟨_, hx, rfl⟩
  next => cases h

/-- The loop of a form writes in the topmost frame alone. -/
theorem formLoop_changesTop (bound : Nat) (form : String) (condition body : Node)
    (passes done : Nat) (fields : FieldList) :
    Within Machine.ChangesTop
      (whileHolds condition.line (holds "for" condition) (fun pass fields => do
        exec bound body
        addBlock form (some pass) fields body) passes done fields) := by
  have hQ := changesTop_stepRelation.toQuietRelation
  have hexec : Within Machine.ChangesTop (exec bound body) := by
    rw [← Plan.statement_run]
    exact (Plan.statement body).run_within changesTop_stepRelation bound
  exact whileHolds_within changesTop_stepRelation.toWriteRelation _ ((holds_quiet _ _).within hQ)
    (fun pass fields => hexec.bind hQ fun _ => (addBlock_quiet _ _ _ _).within hQ)
      passes done fields

/-- A field is collected as itself. -/
theorem collects_field {n : Node} (h : IsField n) (passes : Nat) (form : String) :
    Collects passes form n := by
  obtain ⟨o, kind, name, -⟩ := h
  intro rest fields fields' m m' h
  rw [collectFields] at h
  obtain ⟨fields₁, m₁, hfield, h⟩ := exists_of_bind_ok h
  obtain ⟨log, rfl⟩ := (addField_quiet _ _ _ _ _ _ _).ok hfield
  refine ⟨_, 0, log, m.budget, fields₁, .field rfl, ?_, .refl _, h⟩
  rw [List.foldlM_cons, addField_ok hfield]
  rfl

/-- A branch of a form is collected as the fields of the branch that its condition takes. -/
theorem collects_branch (o o' : Origin) (condition : Node) (body : List Node)
    (negative : Option Node) (passes : Nat) (form : String) :
    Collects passes form (.branch o condition (.block o' body) negative) := by
  intro rest fields fields' m m' h
  rw [collectFields] at h
  obtain ⟨b, m₁, hread, h⟩ := exists_of_bind_ok h
  obtain ⟨hholds, rfl⟩ := holds_ok hread
  cases b with
  | false => exact ⟨[], 0, m₁.log, m₁.budget, fields, .skipped hholds, rfl, .refl _, h⟩
  | true =>
    rw [if_pos rfl] at h
    obtain ⟨fields₁, m₂, hblock, h⟩ := exists_of_bind_ok h
    obtain ⟨log, rfl⟩ := (addFields_quiet _ _ _ _).ok hblock
    exact ⟨_, 0, log, m₁.budget, fields₁, .taken hholds, addFields_ok hblock, .refl _, h⟩

/-- A loop of a form is collected as the fields of all its passes. -/
theorem collects_loop {container : FormContainer} {o o' : Origin} {condition : Node}
    {body : List Node} (hlines : ∀ n ∈ body, HasRole .line n)
    (hadmitted : ∀ n ∈ body, container.admits n = true) (passes : Nat) (form : String) :
    Collects passes form (.loop o condition (.block o' body)) := by
  intro rest fields fields' m m' h
  rw [collectFields] at h
  obtain ⟨fields₁, m₁, hisolated, h⟩ := exists_of_bind_ok h
  obtain ⟨m₂, hinside, rfl⟩ := isolated_ok hisolated
  obtain ⟨⟨count, fields₂⟩, m₃, hloop, hrecord⟩ := exists_of_bind_ok hinside
  cases hrecord
  have hframe := formLoop_changesTop passes form condition (.block o' body) passes 0 fields
    { m with scopes := m.scopes.push }
  rw [hloop] at hframe
  obtain ⟨f, hf⟩ := hframe
  have halike : Scopes.Alike { m with scopes := m.scopes.push }.scopes m.scopes :=
    m.scopes.get?_push
  obtain ⟨n, copies, scopes, log, budget, hpasses, hspent, rfl, hpushed⟩ :=
    whileHolds_ok hlines hadmitted passes halike hloop
  have hpop : scopes.pop = m.scopes := (congrArg Scopes.pop hf).trans (m.scopes.pop_withTop_push f)
  simp only [Nat.zero_add] at hpushed
  simp only [hpop] at h
  exact ⟨_, n, _, budget, fields₁, .loop hpasses, hpushed, hspent, h⟩

/-- The fields that are collected from the children of a form are those of its unrolling. -/
theorem collectFields_ok {passes : Nat} {form : String} {body : List Node}
    (hbody : ∀ n ∈ body, HasRole .child n) {fields fields' : FieldList}
    (h : collectFields passes form body fields m = .ok fields' m') :
    ∃ news n log budget, UnrollsAll m.scopes body news n ∧
      news.foldlM FieldList.push? fields = some fields' ∧ m.budget.Spent n budget ∧
      m' = { m with log, budget } := by
  induction body generalizing fields m with
  | nil =>
    rw [collectFields] at h
    cases h
    exact ⟨[], 0, _, _, .nil, rfl, .refl _, rfl⟩
  | cons child rest ih =>
    rw [List.forall_mem_cons] at hbody
    have hchild : Collects passes form child := by
      cases hbody.1 with
      | childField field => exact collects_field field passes form
      | childBlock o o' container condition block admitted =>
        cases block with
        | block _ lines =>
          cases container with
          | branch => exact collects_branch o o' _ _ none passes form
          | loop => exact collects_loop lines admitted passes form
    obtain ⟨news, n, log, budget₁, fields₁, hfirst, hpushed, hspent, h⟩ := hchild h
    obtain ⟨news', n', log', budget, hothers, hpushed', hspent', rfl⟩ := ih hbody.2 h
    refine ⟨news ++ news', n + n', log', budget, .cons hfirst hothers, ?_,
      hspent.trans hspent', rfl⟩
    rw [List.foldlM_append, hpushed]
    exact hpushed'

/-- A form that is taken in is put into the store, and something may be reported. -/
theorem registerForm_ok {name : String} {line : Nat} {fields : FieldList}
    (h : registerForm name line fields m = .ok () m') :
    ∃ log, m' = { m with forms := (m.forms.insert ⟨name, fields.toList⟩).2, log } := by
  obtain ⟨_, m₁, hrecord, h⟩ := exists_of_bind_ok h
  cases hrecord
  obtain ⟨replaced, m₂, hregister, h⟩ := exists_of_bind_ok h
  cases hregister
  split at h
  · cases h
    exact ⟨_, rfl⟩
  · cases h
    exact ⟨_, rfl⟩

/-- What a declaration does that succeeds: it stores the form with the fields of its unrolling,
which have different names, and counts the passes. -/
theorem declareForm_ok {passes : Nat} {name : String} {body : List Node} {line : Nat}
    (hbody : ∀ n ∈ body, HasRole .child n) (h : declareForm passes name body line m = .ok () m') :
    ∃ fields n log budget, UnrollsAll m.scopes body fields n ∧ (fields.map FormField.name).Nodup ∧
      m.budget.Spent n budget ∧
      m' = { m with forms := (m.forms.insert ⟨name, fields⟩).2, budget, log } := by
  obtain ⟨collected, m₁, hcollect, h⟩ := exists_of_bind_ok h
  obtain ⟨fields, n, log, budget, hunrolls, hpushed, hspent, rfl⟩ := collectFields_ok hbody hcollect
  obtain ⟨log', rfl⟩ := registerForm_ok h
  obtain ⟨hlist, hnodup⟩ := FieldList.foldlM_push?_some hpushed
  rw [hlist] at hnodup ⊢
  exact ⟨fields, n, log', budget, hunrolls, hnodup .nil, hspent, rfl⟩

end Run

/-- A form that is put in is found under its name. -/
theorem FormStore.get?_insert_self (s : FormStore) (form : FormDefinition) :
    (s.insert form).2.get? form.name = some form := by
  change Keyed.find? _ _ (Keyed.put FormDefinition.name form s.forms) = _
  rw [Keyed.find?_put, if_pos rfl]

/-- A form of a program that is declared with success has the fields of its unrolling in the scopes
at its entry, of which there is one only, and is charged for the passes of all its loops. -/
theorem declareForm_unrolls {source : String} {root : Node} (hparse : parse source = .ok root)
    {o : Origin} {name : String} {body : List Node} (hform : .form o name body ∈ root.walk)
    {passes line : Nat} {m m' : Machine} (h : Run.declareForm passes name body line m = .ok () m') :
    ∃ fields n, UnrollsAll m.scopes body fields n ∧
      (∀ fields' n', UnrollsAll m.scopes body fields' n' → fields' = fields ∧ n' = n) ∧
      m'.forms.get? name = some ⟨name, fields⟩ ∧
      m'.budget.iterations.toNat = m.budget.iterations.toNat + n := by
  have hbody : ∀ child ∈ body, Node.HasRole .child child :=
    (Grammar.hasRole_of_parse hparse).formShaped _ hform
  obtain ⟨fields, n, log, budget, hunrolls, -, hspent, rfl⟩ := Run.declareForm_ok hbody h
  refine ⟨fields, n, hunrolls, ?_, m.forms.get?_insert_self ⟨name, fields⟩, hspent.iterations⟩
  intro fields' n' hunrolls'
  exact hunrolls'.unique hunrolls

/-! ## A program with a form -/

namespace Sample

/-- A program with a loop in a form, which writes the variable that it asks for. -/
def source : String :=
  "\x7b\nvar b bool=true\nform f\x7bfor b\x7b\nb=false\nstring_field a\x7b\x7d\x7d\x7d\n" ++
    "Println(b)\n\x7d"

/-- The body of the form. -/
def body : List Node :=
  [.loop ⟨8, 3⟩ (.ident ⟨2, 3⟩ "b") (.block ⟨7, 3⟩
    [.assign ⟨5, 4⟩ (.ident ⟨3, 4⟩ "b") (.bool ⟨4, 4⟩ false), .field ⟨6, 5⟩ .string "a" []])]

/-- The tree of the program. -/
def root : Node :=
  .block ⟨12, 1⟩ [.declare ⟨1, 2⟩ "b" .bool (some (.bool ⟨0, 2⟩ true)), .form ⟨9, 3⟩ "f" body,
    .print ⟨11, 6⟩ (.ident ⟨10, 6⟩ "b")]

/-- The tree of the sample program. -/
theorem parse_source : parse source = .ok root := by
  decide +kernel

/-- The machine when the program comes to its form. -/
def entry : Machine :=
  { Machine.start .unbounded .off with scopes := ⟨⟨[("b", ⟨.bool, some (.bool true)⟩)]⟩, []⟩ }

/-- The machine behind the form. -/
def exit : Machine :=
  { entry with
    forms := ⟨[⟨"f", [⟨.string, "a_1", .default⟩]⟩]⟩
    budget := { entry.budget with iterations := 1 } }

/-- The run of the sample form. -/
theorem declareForm_entry : Run.declareForm 1 "f" body 3 entry = .ok () exit :=
  rfl

end Sample

open Sample in
/-- A form whose loop makes one pass. -/
theorem declareForm_unrolls_sample : Run.declareForm 1 "f" body 3 entry = .ok () exit ∧
    ∃ fields n, UnrollsAll entry.scopes body fields n ∧
      (∀ fields' n', UnrollsAll entry.scopes body fields' n' → fields' = fields ∧ n' = n) ∧
      exit.forms.get? "f" = some ⟨"f", fields⟩ ∧
      exit.budget.iterations.toNat = entry.budget.iterations.toNat + n := by
  have hform : .form ⟨9, 3⟩ "f" body ∈ root.walk := by
    simp [root, Node.walk, Node.walkAll]
  exact ⟨declareForm_entry, declareForm_unrolls parse_source hform declareForm_entry⟩

end FormScript
