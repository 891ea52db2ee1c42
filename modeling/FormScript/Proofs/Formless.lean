import FormScript.Proofs.Unrolling

/-!
# Programs without their forms

`Node.withoutForms` takes the form declarations, the field declarations and the empty lines out of
all statement blocks of a program. What they do stays in the forms, the log and the budget, so the
run of the shortened program follows that of the whole one: before each statement that both have,
the two machines have the same variables and the same output, and the shortened run has made no more
passes and no more looks outside (`Machine.Follows`). So it is not stopped by a clock or a signal
that the whole one gets by with. One lemma for each kind of step says so, and the
induction on the shape of the tree puts them together (`Run.exec_simulates`).
-/

namespace FormScript

namespace Node

/-- A line that is there for the forms alone, or for nothing. -/
def isFormLine : Node → Bool
  | .form _ _ _ | .field _ _ _ _ | .blank _ => true
  | _ => false

mutual

/-- A statement, without form lines in its blocks. -/
def withoutForms : Node → Node
  | block o body => .block o (linesWithoutForms body)
  | branch o condition positive none => .branch o condition positive.withoutForms none
  | branch o condition positive (some negative) =>
    .branch o condition positive.withoutForms (some negative.withoutForms)
  | loop o condition body => .loop o condition body.withoutForms
  | n => n

/-- The lines of a block that are not form lines, each without form lines in its own blocks. -/
def linesWithoutForms : List Node → List Node
  | [] => []
  | n :: rest =>
    if n.isFormLine then linesWithoutForms rest else n.withoutForms :: linesWithoutForms rest

end

end Node

/-! ## Two runs side by side -/

/-- A machine has the variables, the output and the limit of another one, has made no more passes,
and sees the clock and the signal as they were at an earlier look of the other one. -/
structure Machine.Follows (e m : Machine) : Prop where
  scopes : e.scopes = m.scopes
  output : e.output = m.output
  limit : e.budget.limit = m.budget.limit
  iterations : e.budget.iterations.toNat ≤ m.budget.iterations.toNat
  later : e.budget.Later m.budget

/-- A machine that follows still does when the other one makes more passes. -/
theorem Machine.Follows.spent {e m : Machine} {k : Nat} {b : Budget} (h : e.Follows m)
    (hspent : m.budget.Spent k b) : e.Follows { m with budget := b } where
  scopes := h.scopes
  output := h.output
  limit := h.limit.trans hspent.limit.symm
  iterations := hspent.iterations ▸ Nat.le_add_right_of_le h.iterations
  later := h.later.trans hspent.later

/-- A machine that follows still does when both look outside. -/
theorem Machine.Follows.looks {e m : Machine} (h : e.Follows m) :
    { e with budget := e.budget.look }.Follows { m with budget := m.budget.look } where
  scopes := h.scopes
  output := h.output
  limit := by simp [h.limit]
  iterations := by simp [h.iterations]
  later := h.later.look_look

/-- Where the one that has made more passes has a number for another one, the other one has too, and
still follows when both have counted it. -/
theorem Machine.Follows.counts {e m : Machine} {b : Budget} (h : e.Follows m)
    (hcount : m.budget.count? = some b) :
    ∃ c, e.budget.count? = some c ∧ { e with budget := c }.Follows { m with budget := b } := by
  have hle := h.iterations
  obtain ⟨hb, hiterations⟩ := Budget.count?_eq_some hcount
  cases hcount' : e.budget.count? with
  | none =>
    have hfull := Budget.count?_eq_none_iff.1 hcount'
    have hsize := b.iterations.toNat_lt_size
    omega
  | some c =>
    obtain ⟨hc, hiterations'⟩ := Budget.count?_eq_some hcount'
    have hlimit : c.limit = b.limit := by
      rw [hc, hb]
      exact h.limit
    have hiterations : c.iterations.toNat ≤ b.iterations.toNat := by omega
    have hlater : c.Later b := by
      rw [hc, hb]
      exact (h.later.count_left _).count _
    exact ⟨c, rfl, h.scopes, h.output, hlimit, hiterations, hlater⟩

namespace Run

variable {α β : Type}

/-- Where the second computation succeeds, the first one does too, with the same result, on every
machine that follows. -/
def Simulates (y x : Run α) : Prop :=
  ∀ ⦃a : α⦄ ⦃e m m' : Machine⦄, e.Follows m → x m = .ok a m' → ∃ e', y e = .ok a e' ∧ e'.Follows m'

/-- Computations are simulated one behind the other. -/
theorem Simulates.bind {x y : Run α} {f g : α → Run β} (h : Simulates y x)
    (hf : ∀ a, Simulates (g a) (f a)) : Simulates (y >>= g) (x >>= f) := by
  intro b e m m' hfollows hrun
  obtain ⟨a, m₁, hx, hrun⟩ := exists_of_bind_ok hrun
  obtain ⟨e₁, hy, hfollows₁⟩ := h hfollows hx
  obtain ⟨e', hg, hfollows'⟩ := hf a hfollows₁ hrun
  refine ⟨e', ?_, hfollows'⟩
  rw [bind_run, hy]
  exact hg

/-- Simulation is kept when computations are put together. -/
theorem simulates_congruence : Congruence Simulates where
  pure a := by
    intro b e m m' hfollows hrun
    cases hrun
    exact ⟨e, rfl, hfollows⟩
  throw h := by
    intro b e m m' _ hrun
    cases hrun
  bind := Simulates.bind

/-- Any report can stand for any other one. -/
theorem record_simulates (event event' : Event) : Simulates (record event) (record event') := by
  intro _ e m m' hfollows hrun
  cases hrun
  exact ⟨_, rfl, { hfollows with }⟩

/-- What depends on the variables only is simulated by itself. -/
theorem ofExcept_simulates (f : Scopes → Except RuntimeError α) :
    Simulates (do ofExcept (f (← get).scopes)) (do ofExcept (f (← get).scopes)) := by
  intro a e m m' hfollows hrun
  obtain ⟨hvalue, rfl⟩ := ofExcept_ok (x := f m.scopes) hrun
  have he : ofExcept (f e.scopes) e = .ok a e := by
    rw [hfollows.scopes, hvalue]
    rfl
  exact ⟨e, he, hfollows⟩

/-- Declaring a variable is simulated by itself. -/
theorem declare_simulates (line : Nat) (name : String) (type : Ty) :
    Simulates (declare line name type) (declare line name type) := by
  refine (ofExcept_simulates fun scopes => locate line (scopes.declare name type)).bind
    fun scopes => ?_
  intro _ e m m' hfollows hrun
  cases hrun
  exact ⟨_, rfl, { hfollows with scopes := rfl }⟩

/-- Writing a variable is simulated by itself. -/
theorem assign_simulates (line : Nat) (name : String) (value : Value) :
    Simulates (assign line name value) (assign line name value) := by
  intro _ e m m' hfollows hrun
  obtain ⟨scopes, hassign, rfl⟩ := assign_ok hrun
  have he : assign line name value e = .ok () { e with scopes } := by
    change ofExcept (locate line (e.scopes.assign name value).1)
      { e with scopes := (e.scopes.assign name value).2 } = _
    rw [hfollows.scopes, hassign]
    rfl
  exact ⟨_, he, { hfollows with scopes := rfl }⟩

/-- Printing is simulated by itself. -/
theorem print_simulates (text : String) : Simulates (print text) (print text) := by
  intro _ e m m' hfollows hrun
  cases hrun
  exact ⟨_, rfl, { hfollows with output := congrArg (·.push text) hfollows.output }⟩

/-- A look outside can stand for one at another line. -/
theorem checkBudget_simulates (line line' : Nat) :
    Simulates (checkBudget line) (checkBudget line') := by
  intro _ e m m' hfollows hrun
  rcases checkBudget_cases line' m with ⟨hgoesOn, hm⟩ | ⟨fault, log, -, hm⟩
  · cases hm.symm.trans hrun
    have hlooks := hfollows.looks
    rcases checkBudget_cases line e with ⟨-, he⟩ | ⟨fault, log, hstops, -⟩
    · exact ⟨_, he, hlooks⟩
    · cases hstops.symm.trans (hlooks.later.verdict hgoesOn)
  · cases hm.symm.trans hrun

/-- The pass of the one that has made more is within the limits, so that of the other one is too. -/
theorem tick_simulates (line : Nat) : Simulates (tick line) (tick line) := by
  intro _ e m m' hfollows hrun
  have hticks := tick_ticks line m
  rw [hrun] at hticks
  cases hticks with
  | made counted within goesOn =>
    obtain ⟨c, hcount, hcounts⟩ := hfollows.counts counted
    have hlooks := hcounts.looks
    have hticks' := tick_ticks line e
    generalize tick line e = r at hticks' ⊢
    cases hticks' with
    | overflow full => cases full.symm.trans hcount
    | exceeded log counted' limited beyond =>
      cases counted'.symm.trans hcount
      have hle := hcounts.iterations
      have hwithin := within _ (hcounts.limit.symm.trans limited)
      exact absurd (Nat.le_trans hle hwithin) (Nat.not_le.2 beyond)
    | stopped log counted' _ stops =>
      cases counted'.symm.trans hcount
      cases stops.symm.trans (hlooks.later.verdict goesOn)
    | made counted' =>
      cases counted'.symm.trans hcount
      exact ⟨_, rfl, hlooks⟩

/-- Evaluating an expression is simulated by itself. -/
theorem eval_simulates (n : Node) : Simulates (eval n) (eval n) :=
  ofExcept_simulates fun scopes => n.eval scopes

/-- Asking for a condition is simulated by itself. -/
theorem holds_simulates (construct : String) (condition : Node) :
    Simulates (holds construct condition) (holds construct condition) :=
  ofExcept_simulates fun scopes => condition.holds scopes construct

/-- A declaration with or without a start value is simulated by itself. -/
theorem declareWith_simulates (line : Nat) (name : String) (type : Ty) (init : Option Node) :
    Simulates (declareWith line name type init) (declareWith line name type init) := by
  cases init with
  | none => exact declare_simulates line name type
  | some init =>
    refine (eval_simulates init).bind fun v => ?_
    split
    · exact (declare_simulates line name type).bind fun _ => assign_simulates line name v
    · exact simulates_congruence.throw _

/-! ## Statements -/

open Node (HasRole)

/-- Form lines are not noticed: a form reads variables, stores its fields and counts its passes. -/
theorem exec_formLine_follows {passes : Nat} {n : Node} {e m m' : Machine} (hline : HasRole .line n)
    (hn : n.isFormLine = true) (hfollows : e.Follows m) (hrun : exec passes n m = .ok () m') :
    e.Follows m' := by
  cases n with
  | form o name body =>
    have hself : .form o name body ∈ (Node.form o name body).walk := by
      rw [Node.walk]
      exact .head _
    have hchildren := hline.formShaped _ hself
    rw [exec] at hrun
    obtain ⟨_, m₁, hrecord, hrun⟩ := exists_of_bind_ok hrun
    cases hrecord
    obtain ⟨fields, k, log, budget, -, -, hspent, rfl⟩ := declareForm_ok hchildren hrun
    exact { hfollows.spent hspent with }
  | field | blank =>
    rw [exec] at hrun
    cases hrun
    exact { hfollows with }
  | _ => cases hn

/-- A block is simulated by its lines without forms, if each of these simulates its own. -/
theorem execAll_simulates {passes : Nat} {body : List Node} (hlines : ∀ n ∈ body, HasRole .line n)
    (h : ∀ n ∈ body, n.isFormLine = false →
      Simulates (exec passes n.withoutForms) (exec passes n)) :
    Simulates (execAll passes (Node.linesWithoutForms body)) (execAll passes body) := by
  induction body with
  | nil =>
    rw [Node.linesWithoutForms, execAll]
    exact simulates_congruence.pure ()
  | cons n rest ih =>
    rw [List.forall_mem_cons] at hlines h
    have hrest := ih hlines.2 h.2
    rw [Node.linesWithoutForms, execAll]
    cases hn : n.isFormLine with
    | true =>
      -- The shortened run makes no step here, not even the look at the limits.
      rw [if_pos rfl]
      intro _ e m m' hfollows hrun
      obtain ⟨_, m₁, hcheck, hrun⟩ := exists_of_bind_ok hrun
      obtain ⟨budget, hspent, rfl⟩ := checkBudget_ok hcheck
      obtain ⟨_, m₂, hline, hrun⟩ := exists_of_bind_ok hrun
      exact hrest (exec_formLine_follows hlines.1 hn (hfollows.spent hspent) hline) hrun
    | false =>
      rw [if_neg Bool.false_ne_true, execAll]
      exact (checkBudget_simulates _ _).bind fun _ => (h.1 hn).bind fun _ => hrest

/-- A statement without form lines follows the statement. -/
theorem exec_simulates (passes : Nat) {role : Node.Role} {n : Node} (h : HasRole role n)
    (hrole : role ≠ .child) (hn : n.isFormLine = false) :
    Simulates (exec passes n.withoutForms) (exec passes n) := by
  induction h with
  | block _ lines ih =>
    rw [Node.withoutForms, exec, exec]
    refine (record_simulates _ _).bind fun _ => execAll_simulates lines ?_
    intro n hmem hn
    exact ih n hmem nofun hn
  | field field => cases field with | intro => cases hn
  | blank | form => cases hn
  | print =>
    change Simulates (exec passes (.print _ _)) _
    rw [exec]
    exact (record_simulates _ _).bind fun _ => (eval_simulates _).bind fun _ => print_simulates _
  | declare | declareInit =>
    change Simulates (exec passes (.declare _ _ _ _)) _
    rw [exec]
    exact (record_simulates _ _).bind fun _ => declareWith_simulates _ _ _ _
  | assign =>
    change Simulates (exec passes (.assign _ _ _)) _
    rw [exec]
    refine (record_simulates _ _).bind fun _ => ?_
    exact (eval_simulates _).bind fun _ => assign_simulates _ _ _
  | loop _ _ block ih =>
    rw [Node.withoutForms, exec, exec]
    refine (record_simulates _ _).bind fun _ => Simulates.bind ?_ fun _ =>
      simulates_congruence.pure ()
    refine simulates_congruence.whileHolds (tick_simulates _) (holds_simulates _ _)
      (fun _ _ => ih nofun ?_) _ _ _
    cases block with
    | block => rfl
  | branch _ _ block ih =>
    rw [Node.withoutForms, exec, exec]
    refine (record_simulates _ _).bind fun _ => (holds_simulates _ _).bind fun b => ?_
    split
    · refine ih nofun ?_
      cases block with
      | block => rfl
    · exact simulates_congruence.pure ()
  | branchElse _ _ block other ih ih' =>
    rw [Node.withoutForms, exec, exec]
    refine (record_simulates _ _).bind fun _ => (holds_simulates _ _).bind fun b => ?_
    split
    · refine ih nofun ?_
      cases block with
      | block => rfl
    · refine ih' nofun ?_
      cases other with
      | block => rfl
  | childField | childBlock => exact absurd rfl hrole

end Run

/-- Forms do not influence the rest of a program: where a program succeeds, under whatever limits
and whatever happens outside, it succeeds without its form lines too, under the same limits, prints
the same lines, leaves the same variables and makes no more passes. -/
theorem statement_withoutForms {source : String} {root : Node} (hparse : parse source = .ok root)
    (options : Options) (outside : Outside) (log log' : Log) {m : Machine}
    (h : Run.statement root (.start (.ofOptions options outside) log) = .ok () m) :
    ∃ e, Run.statement root.withoutForms (.start (.ofOptions options outside) log') = .ok () e ∧
      e.output = m.output ∧ e.scopes = m.scopes ∧ e.budget.iterations ≤ m.budget.iterations := by
  have hblock := Grammar.hasRole_of_parse hparse
  have hroot : root.isFormLine = false := by
    cases hblock with
    | block => rfl
  have hstart : Machine.Follows (.start (.ofOptions options outside) log')
      (.start (.ofOptions options outside) log) :=
    ⟨rfl, rfl, rfl, Nat.le_refl _, .refl⟩
  obtain ⟨e, he, hfollows⟩ := Run.exec_simulates _ hblock nofun hroot hstart h
  exact ⟨e, he, hfollows.output, hfollows.scopes, hfollows.iterations⟩

/-- A program whose form makes a pass succeeds with a limit of one pass, a signal that does not come
and a clock on which a millisecond passes before each look, and so it does without the form. -/
theorem statement_withoutForms_sample :
    ∃ m e, Run.statement Sample.root
        (.start (.ofOptions ⟨some 1, some 9, some false⟩ fun _ => ⟨1, false⟩) .off) = .ok () m ∧
      Run.statement Sample.root.withoutForms
        (.start (.ofOptions ⟨some 1, some 9, some false⟩ fun _ => ⟨1, false⟩) .off) = .ok () e ∧
      e.output = m.output ∧ e.scopes = m.scopes ∧ e.budget.iterations ≤ m.budget.iterations := by
  have hok : (compileWith ⟨some 1, some 9, some false⟩ (fun _ => ⟨1, false⟩) Sample.source).isOk =
      true := by
    decide +kernel
  rw [compileWith_of_parse Sample.parse_source] at hok
  cases h : Run.statement Sample.root
      (.start (.ofOptions ⟨some 1, some 9, some false⟩ fun _ => ⟨1, false⟩) .off) with
  | ok u m =>
    obtain ⟨e, he⟩ := statement_withoutForms Sample.parse_source _ _ .off .off h
    exact ⟨m, e, rfl, he⟩
  | error halt m =>
    rw [h] at hok
    cases halt <;> cases hok

end FormScript
