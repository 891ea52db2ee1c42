import FormScript.Proofs.Copies
import FormScript.Proofs.Spending

/-!
# What a run leaves as it was

`Run.Within R x` says that the relation `R` holds between the machine before `x` and the machine
that `x` leaves, also when `x` stops early. A `StepRelation` is one to which every single step of a
run keeps, and then all plans do (`Plan.run_within`), whatever tree they come from. A run writes in
the topmost frame alone (`changesTop_stepRelation`), so an isolated frame takes all that was written
in it away when it is closed, and the declaration of a form, which runs the bodies of its loops in
such frames, leaves all variables as they were (`declareForm_scopes`).
-/

namespace FormScript

/-- A relation that quiet computations keep to. -/
structure QuietRelation (R : Machine → Machine → Prop) : Prop where
  refl : ∀ m, R m m
  trans : ∀ {m₁ m₂ m₃}, R m₁ m₂ → R m₂ m₃ → R m₁ m₃
  record : ∀ m e, R m { m with log := m.log.record e }

/-- A relation that looking outside, counting passes, writing variables and opening frames keep
to. -/
structure WriteRelation (R : Machine → Machine → Prop) : Prop extends QuietRelation R where
  look : ∀ m, R m { m with budget := m.budget.look }
  count : ∀ {m b}, m.budget.count? = some b → R m { m with budget := b }
  assign : ∀ m name value, R m { m with scopes := (m.scopes.assign name value).2 }
  isolated : ∀ {m m'}, R { m with scopes := m.scopes.push } m' →
    R m { m' with scopes := m'.scopes.pop }

/-- A relation that every step of a run keeps to. -/
structure StepRelation (R : Machine → Machine → Prop) : Prop extends WriteRelation R where
  declare : ∀ {m name type scopes}, m.scopes.declare name type = .ok scopes → R m { m with scopes }
  print : ∀ m text, R m { m with output := m.output.push text }
  register : ∀ m form, R m { m with forms := (m.forms.insert form).2 }

/-- The machine that a computation leaves is related to the one before it. -/
def Run.Within {α : Type} (R : Machine → Machine → Prop) (x : Run α) : Prop :=
  ∀ m, R m (Ending.machine (x m))

section
variable {α β : Type} {R : Machine → Machine → Prop}

namespace Run

/-- Computations keep to a relation one behind the other. -/
theorem Within.bind {x : Run α} {f : α → Run β} (hR : QuietRelation R) (hx : Within R x)
    (hf : ∀ a, Within R (f a)) : Within R (x >>= f) := by
  intro m
  have hx := hx m
  rw [bind_run]
  cases h : x m with
  | ok a m' =>
    rw [h] at hx
    exact hR.trans hx (hf a m')
  | error e m' =>
    rw [h] at hx
    exact hx

/-- An answer without a step keeps to the relation. -/
theorem Within.pure (hR : QuietRelation R) (a : α) : Within R (pure a : Run α) :=
  hR.refl

/-- Looking at the machine keeps to the relation. -/
theorem Within.get (hR : QuietRelation R) : Within R (get : Run Machine) :=
  hR.refl

/-- A fault keeps to the relation. -/
theorem Within.fail (hR : QuietRelation R) (line : Nat) (fault : RuntimeFault) :
    Within R (fail line fault : Run α) :=
  hR.refl

/-- Passing on a failure keeps to the relation. -/
theorem Within.ofExcept (hR : QuietRelation R) (x : Except RuntimeError α) :
    Within R (ofExcept x) := by
  intro m
  cases x with
  | ok a => exact hR.refl m
  | error e => exact hR.refl m

/-- Quiet computations keep to the relation. -/
theorem Quiet.within (hR : QuietRelation R) {x : Run α} (h : Quiet x) : Within R x := by
  induction h with
  | read f => exact (Within.get hR).bind hR fun m => .ofExcept hR _
  | record e => exact fun m => hR.record m e
  | bind _ _ hx hf => exact hx.bind hR hf

/-- Declaring a variable keeps to the relation. -/
theorem declare_within (hR : StepRelation R) (line : Nat) (name : String) (type : Ty) :
    Within R (declare line name type) := by
  intro m
  have hdeclare : ∀ scopes, m.scopes.declare name type = .ok scopes → R m { m with scopes } :=
    fun _ => hR.declare
  change R m (Ending.machine ((ofExcept (locate line (m.scopes.declare name type)) >>=
    fun scopes => modify fun m => { m with scopes }) m))
  cases h : m.scopes.declare name type with
  | error fault => exact hR.refl m
  | ok scopes => exact hdeclare scopes h

/-- Writing a variable keeps to the relation, also where it fails. -/
theorem assign_within (hR : WriteRelation R) (line : Nat) (name : String) (value : Value) :
    Within R (assign line name value) := by
  intro m
  refine hR.trans (hR.assign m name value) ?_
  exact Within.ofExcept hR.toQuietRelation (locate line (m.scopes.assign name value).1) _

/-- Straight computations keep to the relation. -/
theorem Straight.within (hR : StepRelation R) {x : Run α} (h : Straight x) : Within R x := by
  induction h with
  | quiet h => exact h.within hR.toQuietRelation
  | declare line name type => exact declare_within hR line name type
  | assign line name value => exact assign_within hR.toWriteRelation line name value
  | print text => exact fun m => hR.print m text
  | register form => exact fun m => hR.register m form
  | bind _ _ hx hf => exact hx.bind hR.toQuietRelation hf

/-- Limits that keep to a relation do so also when they stop the run. -/
theorem obey_within (hR : QuietRelation R) (line : Nat)
    {checked : Except RuntimeFault Unit × Budget} {m : Machine}
    (hbudget : R m { m with budget := checked.2 }) :
    R m (Ending.machine (obey line checked m)) := by
  refine hR.trans hbudget ?_
  obtain ⟨verdict, b⟩ := checked
  cases verdict with
  | ok u => exact hR.refl _
  | error fault =>
    cases fault with
    | cancelled | timedOut | iterationsExceeded => exact hR.record _ _
    | _ => exact hR.refl _

/-- A look outside keeps to the relation. -/
theorem checkBudget_within (hR : WriteRelation R) (line : Nat) : Within R (checkBudget line) :=
  fun m => obey_within hR.toQuietRelation line (hR.look m)

/-- Counting a pass keeps to the relation. -/
theorem tick_within (hR : WriteRelation R) (line : Nat) : Within R (tick line) := by
  intro m
  have hQ := hR.toQuietRelation
  have hrun : tick line m = obeyCounted line (m.budget.count?.map Budget.charge) m := rfl
  rw [hrun]
  cases hcount : m.budget.count? with
  | none => exact hQ.refl m
  | some b =>
    refine obey_within hQ line ?_
    rcases b.charge_cases with ⟨limit, -, -, hcharge⟩ | ⟨-, hcharge⟩
    · rw [hcharge]
      exact hR.count hcount
    · rw [hcharge]
      exact hQ.trans (hR.count hcount) (hR.look { m with budget := b })

/-- A computation in a frame of its own keeps to the relation if it does without it. -/
theorem isolated_within (hR : WriteRelation R) {x : Run α} (hx : Within R x) :
    Within R (isolated x) := by
  intro m
  rw [isolated_run, Ending.machine_mapMachine]
  exact hR.isolated (hx _)

/-- A loop keeps to a relation that its condition and its passes keep to. -/
theorem whileHolds_within {σ : Type} {condition : Run Bool} {pass : Nat → σ → Run σ}
    (hR : WriteRelation R) (line : Nat) (hcondition : Within R condition)
    (hpass : ∀ i state, Within R (pass i state)) (passes done : Nat) (state : σ) :
    Within R (whileHolds line condition pass passes done state) := by
  have hQ := hR.toQuietRelation
  induction passes generalizing done state with
  | zero =>
    rw [whileHolds]
    refine hcondition.bind hQ fun holds => ?_
    split
    · exact (tick_within hR line).bind hQ fun _ => hQ.refl
    · exact .pure hQ _
  | succ passes ih =>
    rw [whileHolds]
    refine hcondition.bind hQ fun holds => ?_
    split
    · exact (tick_within hR line).bind hQ fun _ => (hpass _ _).bind hQ fun state => ih _ state
    · exact .pure hQ _

end Run

/-- All that a plan does keeps to a relation to which single steps keep. -/
theorem Plan.run_within (hR : StepRelation R) (p : Plan α) (passes : Nat) :
    Run.Within R (p.run passes) := by
  have hQ := hR.toQuietRelation
  induction p with
  | step x straight => exact straight.within hR
  | check line => exact Run.checkBudget_within hR.toWriteRelation line
  | bind p f ih ih' => exact ih.bind hQ ih'
  | isolated p ih => exact Run.isolated_within hR.toWriteRelation ih
  | loop condition pass done state ih =>
    exact Run.whileHolds_within hR.toWriteRelation _ ((Run.holds_quiet _ condition).within hQ) ih
      passes
      done state

end

/-! ## Writing touches the topmost frame alone -/

namespace Scopes

@[simp] theorem withTop_top (s : Scopes) : s.withTop s.top = s := by
  obtain ⟨program, overlays⟩ := s
  cases overlays <;> rfl

/-- A new frame is dropped again, whatever became of it. -/
theorem pop_withTop_push (s : Scopes) (f : Frame) : (s.push.withTop f).pop = s :=
  rfl

/-- Declaring a variable changes the topmost frame only. -/
theorem exists_declare {s s' : Scopes} {name : String} {type : Ty}
    (h : s.declare name type = .ok s') : ∃ f, s' = s.withTop f := by
  unfold declare at h
  split at h
  · cases h
  · cases htop : s.top.declare name type with
    | error fault =>
      rw [htop] at h
      cases h
    | ok f =>
      rw [htop] at h
      cases h
      exact ⟨f, rfl⟩

/-- Writing a variable changes the topmost frame only. -/
theorem exists_assign (s : Scopes) (name : String) (value : Value) :
    ∃ f, (s.assign name value).2 = s.withTop f := by
  unfold assign
  split
  · exact ⟨s.top, s.withTop_top.symm⟩
  · dsimp only
    split
    · exact ⟨_, rfl⟩
    · exact ⟨_, rfl⟩

end Scopes

/-- The scopes differ in the topmost frame at most. -/
def Machine.ChangesTop (m m' : Machine) : Prop :=
  ∃ f, m'.scopes = m.scopes.withTop f

/-- The scopes are the same. -/
def Machine.KeepsScopes (m m' : Machine) : Prop :=
  m'.scopes = m.scopes

open Machine

/-- Scopes that are the same do not differ below the topmost frame. -/
theorem Machine.KeepsScopes.changesTop {m m' : Machine} (h : KeepsScopes m m') : ChangesTop m m' :=
  ⟨m.scopes.top, h.trans m.scopes.withTop_top.symm⟩

/-- No step of a run changes the frames below the topmost one. -/
theorem changesTop_stepRelation : StepRelation ChangesTop where
  refl m := KeepsScopes.changesTop rfl
  trans := by
    rintro m₁ m₂ m₃ ⟨f, hf⟩ ⟨g, hg⟩
    exact ⟨g, by rw [hg, hf, Scopes.withTop_withTop]⟩
  record m e := KeepsScopes.changesTop rfl
  look m := KeepsScopes.changesTop rfl
  count _ := KeepsScopes.changesTop rfl
  declare h := Scopes.exists_declare h
  assign m name value := m.scopes.exists_assign name value
  print m text := KeepsScopes.changesTop rfl
  register m form := KeepsScopes.changesTop rfl
  isolated := by
    rintro m m' ⟨f, hf⟩
    refine KeepsScopes.changesTop ?_
    exact (congrArg Scopes.pop hf).trans (m.scopes.pop_withTop_push f)

/-- Quiet computations leave the scopes as they are. -/
theorem keepsScopes_quietRelation : QuietRelation KeepsScopes where
  refl _ := rfl
  trans h h' := h'.trans h
  record _ _ := rfl

namespace Plan

variable {α : Type}

/-- What is done in an isolated frame is gone behind it. -/
theorem isolated_keepsScopes (p : Plan α) (passes : Nat) :
    Run.Within KeepsScopes ((isolated p).run passes) := by
  intro m
  obtain ⟨f, hf⟩ := p.run_within changesTop_stepRelation passes { m with scopes := m.scopes.push }
  rw [run, Run.isolated_run, Ending.machine_mapMachine]
  exact (congrArg Scopes.pop hf).trans (m.scopes.pop_withTop_push f)

/-- Collecting the fields of a form leaves the scopes as they are. -/
theorem children_keepsScopes (form : String) (body : List Node) (fields : FieldList)
    (passes : Nat) : Run.Within KeepsScopes ((children form body fields).run passes) := by
  have hQ := keepsScopes_quietRelation
  induction body generalizing fields with
  | nil =>
    rw [children]
    exact .pure hQ fields
  | cons n rest ih =>
    cases n with
    | field o kind name properties =>
      rw [children, run_bind]
      exact Run.Within.bind hQ ((Run.addField_quiet _ _ _ _ _ _ _).within hQ) ih
    | branch o condition positive negative =>
      rw [children, run_bind]
      refine Run.Within.bind hQ ((Run.holds_quiet _ condition).within hQ) fun holds => ?_
      rw [run_ite]
      split
      · exact Run.Within.bind hQ ((Run.addBlock_quiet _ _ _ positive).within hQ) ih
      · exact ih fields
    | loop o condition body =>
      -- The body runs in a frame of its own, so it does not matter what stands in it.
      rw [children, run_bind]
      exact (isolated_keepsScopes _ passes).bind hQ ih
    | blank o =>
      rw [children]
      exact ih fields
    | _ => exact fun _ => rfl

end Plan

/-- Taking in a form leaves the scopes as they are. -/
theorem Run.registerForm_keepsScopes (name : String) (line : Nat) (fields : FieldList) :
    Within KeepsScopes (registerForm name line fields) := by
  have hQ := keepsScopes_quietRelation
  have hregister : ∀ form, Within KeepsScopes (register form) := fun _ _ => rfl
  refine Within.bind hQ ((Quiet.record _).within hQ) fun _ => (hregister _).bind hQ fun replaced =>
    ?_
  split
  · exact (Quiet.record _).within hQ
  · exact .pure hQ ()

/-- The declaration of a form leaves the scopes as they were, whatever its children are, in whatever
frame and within whatever limits it runs, and wherever it stops. -/
theorem declareForm_scopes (passes : Nat) (name : String) (body : List Node) (line : Nat)
    (m : Machine) :
    (Ending.machine (Run.declareForm passes name body line m)).scopes = m.scopes := by
  have hchildren : Run.Within KeepsScopes (Run.collectFields passes name body .empty) := by
    rw [← Plan.children_run]
    exact Plan.children_keepsScopes name body .empty passes
  exact hchildren.bind keepsScopes_quietRelation
    (fun fields => Run.registerForm_keepsScopes name line fields) m

-- One pass is made in between, and what it writes ends the loop.
example :
    (Ending.machine (Run.declareForm 9 "f" [.loop default (.ident default "b")
      (.block default [.assign default (.ident default "b") (.bool default false)])] 1
      ⟨⟨⟨[("b", ⟨.bool, some (.bool true)⟩)]⟩, []⟩, .empty, #[], .unbounded,
        .off⟩)).budget.iterations = 1 :=
  rfl

end FormScript
