import FormScript.Compile
import FormScript.Proofs.Spending

/-!
# How runs end

`Plan.Ends p m bodies r` says by rules, without a bound on loops, that the plan `p` ends with `r`
when it is carried out from the machine `m`, and that it goes through `bodies` loop bodies on the
way. A run that was given at least `bodies` passes for each loop ends as the rules say
(`Ends.run_eq`).

Each body is counted by the budget before it starts (`Ends.affords`), so there are no more bodies
than the counter has numbers and the limit leaves. The rules give every plan an end (`exists_ends`):
a loop spends a pass before it goes into its body once more, and everything else follows the tree.
Under a limit below the last number of the counter the end is a result or an error, unless the
counter is full from the start (`Ends.answers`). Under a limit that is the last number itself the
counter can overflow, since no pass is ever beyond the limit.
-/

namespace FormScript

namespace Ending

variable {α β : Type}

/-- The computation has not given up for want of passes. -/
def Finished (r : Ending α) : Prop :=
  ∀ m, r ≠ .error .unfinished m

/-- The computation has a result, or stops with an error. -/
inductive Answers : Ending α → Prop where
  | ok (a : α) (m : Machine) : Answers (.ok a m)
  | error (e : RuntimeError) (m : Machine) : Answers (.error (.error e) m)

/-- A result or an error comes of a computation that has not given up. -/
theorem Answers.finished {r : Ending α} (h : r.Answers) : r.Finished := by
  cases h with
  | ok | error => exact nofun

/-- Whether a computation that stops does so with an error does not depend on what it would have
given. -/
theorem Answers.stop {e : Halt} {m : Machine} (h : Answers (.error e m : Ending α)) :
    Answers (.error e m : Ending β) := by
  cases h with
  | error e m => exact .error e m

/-- Whether a computation has an answer does not depend on the machine that it leaves. -/
theorem Answers.mapMachine {r : Ending α} (h : r.Answers) (f : Machine → Machine) :
    (r.mapMachine f).Answers := by
  cases h with
  | ok a m => exact .ok a (f m)
  | error e m => exact .error e (f m)

/-- A computation with a result has not given up. -/
theorem finished_ok (a : α) (m : Machine) : Finished (.ok a m) :=
  nofun

/-- Whether a computation that stops has given up does not depend on what it would have given. -/
theorem finished_error {e : Halt} {m : Machine} (h : Finished (.error e m : Ending α)) :
    Finished (.error e m : Ending β) := by
  rintro _ ⟨⟩
  exact h _ rfl

/-- Whether a computation has given up does not depend on the machine that it leaves. -/
theorem finished_mapMachine {f : Machine → Machine} {r : Ending α} :
    (r.mapMachine f).Finished ↔ r.Finished := by
  cases r with
  | ok a m => simp [Finished, mapMachine]
  | error e m => simp [Finished, mapMachine]

end Ending

namespace Budget

variable {b b' b'' : Budget} {j k : Nat}

/-- A budget after `k` more loop passes and any number of looks outside. -/
structure Spent (b : Budget) (k : Nat) (b' : Budget) : Prop where
  limit : b'.limit = b.limit
  iterations : b'.iterations.toNat = b.iterations.toNat + k
  later : b.Later b'

/-- Before the first pass nothing is spent. -/
theorem Spent.refl (b : Budget) : b.Spent 0 b :=
  ⟨rfl, rfl, .refl⟩

/-- A look spends nothing. -/
theorem Spent.look (b : Budget) : b.Spent 0 b.look :=
  ⟨b.limit_look, congrArg UInt64.toNat b.iterations_look, .look .refl⟩

/-- What is spent one after the other adds up. -/
theorem Spent.trans (h : b.Spent j b') (h' : b'.Spent k b'') : b.Spent (j + k) b'' where
  limit := h'.limit.trans h.limit
  iterations := by rw [h'.iterations, h.iterations, Nat.add_assoc]
  later := h.later.trans h'.later

/-- Of `k` more passes the last, if there is one, can be counted and is within the limit. -/
def Affords (b : Budget) (k : Nat) : Prop :=
  0 < k → b.iterations.toNat + k < UInt64.size ∧
    ∀ limit, b.limit = some limit → b.iterations.toNat + k ≤ limit.toNat

/-- No passes are always within the limits. -/
theorem affords_zero (b : Budget) : b.Affords 0 :=
  nofun

/-- Passes can be made if their first part and what is left can. -/
theorem Affords.append (h : b.Affords j) (spent : b.Spent j b') (h' : b'.Affords k) :
    b.Affords (j + k) := by
  intro hpos
  rcases Nat.eq_zero_or_pos k with rfl | hk
  · exact h hpos
  · have hfits := h' hk
    rwa [spent.limit, spent.iterations, Nat.add_assoc] at hfits

/-- A limit leaves no more passes than there are between the count and it. -/
theorem Affords.le_limit {limit : UInt64} (h : b.Affords k) (hlimit : b.limit = some limit) :
    k ≤ limit.toNat - b.iterations.toNat := by
  rcases Nat.eq_zero_or_pos k with rfl | hk
  · omega
  · have hle := (h hk).2 limit hlimit
    omega

/-- With or without a limit, the bound on loops is never used up. -/
theorem Affords.le_passes (h : b.Affords k) : k ≤ b.passes := by
  unfold passes
  split
  next limit hlimit =>
    have hle := h.le_limit hlimit
    omega
  next =>
    rcases Nat.eq_zero_or_pos k with rfl | hk
    · omega
    · have hlt := (h hk).1
      omega

/-- Under a limit below the last number, a counter that is not full is not full after passes that
the budget can afford. -/
theorem Affords.room {limit : UInt64} (h : b.Affords k) (spent : b.Spent k b')
    (hlimit : b.limit = some limit) (hbelow : limit.toNat + 1 < UInt64.size)
    (hroom : b.iterations.toNat + 1 < UInt64.size) : b'.iterations.toNat + 1 < UInt64.size := by
  rw [spent.iterations]
  rcases Nat.eq_zero_or_pos k with rfl | hk
  · exact hroom
  · have hle := (h hk).2 limit hlimit
    omega

end Budget

namespace Machine

/-- The machine with another budget. -/
def withBudget (m : Machine) (b : Budget) : Machine :=
  { m with budget := b }

end Machine

namespace Run

section
variable {α β : Type} {x : Run α} {m m' : Machine}

/-- A computation that succeeds is followed by the rest. -/
theorem bind_ok {a : α} (h : x m = .ok a m') (f : α → Run β) : (x >>= f) m = f a m' := by
  rw [bind_run, h]

/-- A computation that fails is followed by nothing. -/
theorem bind_error {e : Halt} (h : x m = .error e m') (f : α → Run β) :
    (x >>= f) m = .error e m' := by
  rw [bind_run, h]

end

/-! ## Straight computations and limits -/

/-- A computation that has a result or an error, and for which the budget makes no difference. -/
structure Blind {α : Type} (x : Run α) : Prop where
  answers : ∀ m, Ending.Answers (x m)
  withBudget : ∀ m b, x (m.withBudget b) = Ending.mapMachine (·.withBudget b) (x m)

section
variable {α β : Type}

/-- Blind computations are blind one behind the other. -/
theorem Blind.bind {x : Run α} {f : α → Run β} (hx : Blind x) (hf : ∀ a, Blind (f a)) :
    Blind (x >>= f) where
  answers m := by
    have hm := hx.answers m
    rw [bind_run]
    cases h : x m with
    | ok a m' => exact (hf a).answers m'
    | error e m' =>
      rw [h] at hm
      exact hm.stop
  withBudget m b := by
    rw [bind_run, bind_run, hx.withBudget]
    cases x m with
    | ok a m' => exact (hf a).withBudget m' b
    | error e m' => rfl

/-- What is settled before the run does not depend on the budget. -/
theorem ofExcept_blind (x : Except RuntimeError α) : Blind (ofExcept x) := by
  cases x with
  | ok a => exact ⟨fun m => .ok a m, fun _ _ => rfl⟩
  | error e => exact ⟨fun m => .error e m, fun _ _ => rfl⟩

/-- A change to the machine is blind if it commutes with a change of the budget. -/
theorem modify_blind {f : Machine → Machine} (hf : ∀ m b, f (m.withBudget b) = (f m).withBudget b) :
    Blind (modify f : Run PUnit) :=
  ⟨fun m => .ok _ (f m), fun m b => congrArg (EStateM.Result.ok PUnit.unit) (hf m b)⟩

/-- Quiet computations do not depend on the budget. -/
theorem Quiet.blind {x : Run α} (h : Quiet x) : Blind x := by
  induction h with
  | read f =>
    exact ⟨fun m => (ofExcept_blind (f m.scopes)).answers m,
      fun m b => (ofExcept_blind (f m.scopes)).withBudget m b⟩
  | record e => exact modify_blind fun _ _ => rfl
  | bind _ _ hx hf => exact hx.bind hf

/-- Declaring a variable does not depend on the budget. -/
theorem declare_blind (line : Nat) (name : String) (type : Ty) :
    Blind (declare line name type) := by
  have hrest : ∀ m : Machine, Blind (do
      let scopes ← ofExcept (locate line (m.scopes.declare name type))
      modify fun m => { m with scopes }) :=
    fun m => (ofExcept_blind _).bind fun _ => modify_blind fun _ _ => rfl
  exact ⟨fun m => (hrest m).answers m, fun m b => (hrest m).withBudget m b⟩

/-- Writing a variable does not depend on the budget. -/
theorem assign_blind (line : Nat) (name : String) (value : Value) :
    Blind (assign line name value) := by
  have hrest : ∀ m : Machine, Blind (do
      modify fun m' => { m' with scopes := (m.scopes.assign name value).2 }
      ofExcept (locate line (m.scopes.assign name value).1)) :=
    fun m => (modify_blind fun _ _ => rfl).bind fun _ => ofExcept_blind _
  exact ⟨fun m => (hrest m).answers m, fun m b => (hrest m).withBudget m b⟩

/-- Straight computations do not depend on the budget. -/
theorem Straight.blind {x : Run α} (h : Straight x) : Blind x := by
  induction h with
  | quiet h => exact h.blind
  | declare line name type => exact declare_blind line name type
  | assign line name value => exact assign_blind line name value
  | print text => exact modify_blind fun _ _ => rfl
  | register form => exact ⟨fun m => .ok _ _, fun _ _ => rfl⟩
  | bind _ _ hx hf => exact hx.bind hf

/-- A blind computation leaves the budget as it is. -/
theorem Blind.budget_eq {x : Run α} (hx : Blind x) (m : Machine) :
    (Ending.machine (x m)).budget = m.budget := by
  have h := hx.withBudget m m.budget
  have hm : m.withBudget m.budget = m := rfl
  rw [hm] at h
  rw [h, Ending.machine_mapMachine]
  rfl

end

/-! ## The places where the limits come in -/

/-- A look before a statement has an answer. -/
theorem checkBudget_answers (line : Nat) (m : Machine) : Ending.Answers (checkBudget line m) := by
  rcases checkBudget_cases line m with ⟨-, hrun⟩ | ⟨fault, log, -, hrun⟩
  · rw [hrun]
    exact .ok _ _
  · rw [hrun]
    exact .error _ _

/-- A look before a statement spends nothing. -/
theorem checkBudget_spent {line : Nat} {m m' : Machine} (h : checkBudget line m = .ok () m') :
    m.budget.Spent 0 m'.budget := by
  rcases checkBudget_cases line m with ⟨-, hrun⟩ | ⟨fault, log, -, hrun⟩
  · cases hrun.symm.trans h
    exact .look _
  · cases hrun.symm.trans h

/-- A pass that is made was counted, and is within the limits. -/
theorem tick_ok {line : Nat} {m m' : Machine} (h : tick line m = .ok () m') :
    m.budget.Affords 1 ∧ m.budget.Spent 1 m'.budget := by
  have hticks := tick_ticks line m
  rw [h] at hticks
  cases hticks with
  | made counted within seen =>
    obtain ⟨hcounted, hiterations⟩ := Budget.count?_eq_some counted
    have hlimit := congrArg Budget.limit hcounted
    refine ⟨fun _ => ⟨?_, fun limit hlimited => ?_⟩, ?_, ?_, ?_⟩
    · rw [← hiterations]
      exact UInt64.toNat_lt_size _
    · rw [← hiterations]
      exact within limit (hlimit.trans hlimited)
    · exact (Budget.limit_look _).trans hlimit
    · exact (congrArg UInt64.toNat (Budget.iterations_look _)).trans hiterations
    · rw [hcounted]
      exact .look (.count _ .refl)

/-- A pass that is refused gives an error, or there is no number to count it with. -/
theorem tick_error {line : Nat} {m m' : Machine} {e : Halt} (h : tick line m = .error e m') :
    (∃ fault, e = .error ⟨line, fault⟩) ∨ e = .overflow ∧ m.budget.count? = none := by
  have hticks := tick_ticks line m
  rw [h] at hticks
  cases hticks with
  | overflow full => exact .inr ⟨rfl, full⟩
  | exceeded | stopped => exact .inl ⟨_, rfl⟩

/-- What a loop does: it looks at its condition, has a pass counted and goes through its body. -/
theorem whileHolds_run {σ : Type} (condition : Node) (pass : Nat → σ → Run σ) (passes done : Nat)
    (state : σ) (m : Machine) :
    whileHolds condition.line (holds "for" condition) pass passes done state m =
      match condition.holds m.scopes "for" with
      | .error e => .error (.error e) m
      | .ok false => .ok (done, state) m
      | .ok true =>
        match tick condition.line m with
        | .error e m' => .error e m'
        | .ok () m' =>
          match passes with
          | 0 => .error .unfinished m'
          | passes + 1 =>
            (pass (done + 1) state >>=
              whileHolds condition.line (holds "for" condition) pass passes (done + 1)) m' := by
  have hholds : holds "for" condition m = ofExcept (condition.holds m.scopes "for") m := rfl
  cases passes with
  | zero | succ passes =>
    rw [whileHolds, bind_run, hholds]
    cases condition.holds m.scopes "for" with
    | error e => rfl
    | ok b =>
      cases b with
      | false => rfl
      | true =>
        change (tick condition.line >>= _) m = _
        rw [bind_run]
        cases tick condition.line m <;> rfl

end Run

/-- From a machine, a plan ends in a certain way, after a number of loop bodies. -/
inductive Plan.Ends : {α : Type} → Plan α → Machine → Nat → Ending α → Prop where
  | step {α : Type} (x : Run α) (straight : Run.Straight x) (m : Machine) :
    Ends (.step x straight) m 0 (x m)
  | check (line : Nat) (m : Machine) : Ends (.check line) m 0 (Run.checkBudget line m)
  | stop {α β : Type} {p : Plan α} {f : α → Plan β} {m m' : Machine} {k : Nat} {e : Halt}
      (first : Ends p m k (.error e m')) :
    Ends (.bind p f) m k (.error e m')
  | bind {α β : Type} {p : Plan α} {f : α → Plan β} {m m' : Machine} {j k : Nat} {a : α}
      {r : Ending β}
      (first : Ends p m j (.ok a m')) (second : Ends (f a) m' k r) :
    Ends (.bind p f) m (j + k) r
  | isolated {α : Type} {p : Plan α} {m : Machine} {k : Nat} {r : Ending α}
      (inside : Ends p { m with scopes := m.scopes.push } k r) :
    Ends (.isolated p) m k (r.mapMachine fun m => { m with scopes := m.scopes.pop })
  /-- The condition of a loop has no truth value. -/
  | unclear {σ : Type} {condition : Node} {pass : Nat → σ → Plan σ} {done : Nat} {state : σ}
      {m : Machine} {e : RuntimeError} (h : condition.holds m.scopes "for" = .error e) :
    Ends (.loop condition pass done state) m 0 (.error (.error e) m)
  /-- A loop is over when its condition does not hold. -/
  | completed {σ : Type} {condition : Node} {pass : Nat → σ → Plan σ} {done : Nat} {state : σ}
      {m : Machine} (h : condition.holds m.scopes "for" = .ok false) :
    Ends (.loop condition pass done state) m 0 (.ok (done, state) m)
  /-- A limit stops a loop before its body. -/
  | refused {σ : Type} {condition : Node} {pass : Nat → σ → Plan σ} {done : Nat} {state : σ}
      {m m' : Machine} {e : Halt} (h : condition.holds m.scopes "for" = .ok true)
      (ticked : Run.tick condition.line m = .error e m') :
    Ends (.loop condition pass done state) m 0 (.error e m')
  /-- The body of a loop stops early, and the loop with it. -/
  | stopInside {σ : Type} {condition : Node} {pass : Nat → σ → Plan σ} {done : Nat} {state : σ}
      {m m₁ m₂ : Machine} {k : Nat} {e : Halt} (h : condition.holds m.scopes "for" = .ok true)
      (ticked : Run.tick condition.line m = .ok () m₁)
      (body : Ends (pass (done + 1) state) m₁ k (.error e m₂)) :
    Ends (.loop condition pass done state) m (1 + k) (.error e m₂)
  /-- Behind its body a loop starts again. -/
  | again {σ : Type} {condition : Node} {pass : Nat → σ → Plan σ} {done : Nat} {state state' : σ}
      {m m₁ m₂ : Machine} {j k : Nat} {r : Ending (Nat × σ)}
      (h : condition.holds m.scopes "for" = .ok true)
      (ticked : Run.tick condition.line m = .ok () m₁)
      (body : Ends (pass (done + 1) state) m₁ j (.ok state' m₂))
      (rest : Ends (.loop condition pass (done + 1) state') m₂ k r) :
    Ends (.loop condition pass done state) m (1 + j + k) r

namespace Plan

section
variable {α : Type} {p : Plan α} {m : Machine} {k : Nat} {r : Ending α}

/-! ## The rules and the run -/

/-- A plan that ends does not give up for want of passes. -/
theorem Ends.finished (h : p.Ends m k r) : r.Finished := by
  induction h with
  | step x straight m => exact (straight.blind.answers m).finished
  | check line m => exact (Run.checkBudget_answers line m).finished
  | stop _ ih | stopInside _ _ _ ih => exact Ending.finished_error ih
  | bind _ _ _ ih | again _ _ _ _ _ ih => exact ih
  | isolated _ ih => exact Ending.finished_mapMachine.2 ih
  | unclear => exact nofun
  | completed => exact Ending.finished_ok _ _
  | refused _ ticked =>
    rcases Run.tick_error ticked with ⟨fault, rfl⟩ | ⟨rfl, -⟩
    · exact nofun
    · exact nofun

/-- A plan carried out, where `rest` passes are left if it is a loop that is under way. -/
def resume (passes rest : Nat) : {α : Type} → Plan α → Run α
  | _, loop condition pass done state =>
    Run.whileHolds condition.line (Run.holds "for" condition)
      (fun i state => (pass i state).run passes) rest done state
  | _, p => p.run passes

/-- A plan with all passes left is carried out from its start. -/
theorem resume_self (p : Plan α) (passes : Nat) : p.resume passes passes = p.run passes := by
  cases p <;> rfl

/-- A plan that ends is carried out to this end, if there are passes for all its loop bodies. -/
theorem Ends.resume_eq {passes rest : Nat} (h : p.Ends m k r) (hpasses : k ≤ passes)
    (hrest : k ≤ rest) : p.resume passes rest m = r := by
  induction h generalizing rest with
  | step | check => rfl
  | @stop _ _ p f m m' k e _ ih =>
    have ih : p.run passes m = .error e m' := resume_self p passes ▸ ih hpasses hpasses
    exact Run.bind_error ih _
  | @bind _ _ p f m m' j k a r _ _ ih ih' =>
    have ih : p.run passes m = .ok a m' := resume_self p passes ▸ ih (by omega) (by omega)
    have ih' : (f a).run passes m' = r := resume_self (f a) passes ▸ ih' (by omega) (by omega)
    exact (Run.bind_ok ih _).trans ih'
  | @isolated _ p m k r _ ih =>
    have ih : p.run passes _ = r := resume_self p passes ▸ ih hpasses hpasses
    change Run.isolated (p.run passes) m = _
    rw [Run.isolated_run, ih]
  | unclear h | completed h =>
    rw [resume, Run.whileHolds_run, h]
  | refused h ticked =>
    simp only [resume, Run.whileHolds_run, h, ticked]
  | @stopInside _ condition pass done state m m₁ m₂ k e h ticked _ ih =>
    obtain ⟨rest, rfl⟩ : ∃ n, rest = n + 1 := ⟨rest - 1, by omega⟩
    have ih : (pass (done + 1) state).run passes m₁ = .error e m₂ :=
      resume_self (pass (done + 1) state) passes ▸ ih (by omega) (by omega)
    simp only [resume, Run.whileHolds_run, h, ticked]
    exact Run.bind_error ih _
  | @again _ condition pass done state state' m m₁ m₂ j k r h ticked _ _ ih ih' =>
    obtain ⟨rest, rfl⟩ : ∃ n, rest = n + 1 := ⟨rest - 1, by omega⟩
    have ih : (pass (done + 1) state).run passes m₁ = .ok state' m₂ :=
      resume_self (pass (done + 1) state) passes ▸ ih (by omega) (by omega)
    simp only [resume, Run.whileHolds_run, h, ticked]
    exact (Run.bind_ok ih _).trans (ih' (by omega) (by omega))

/-- A run with enough passes for each loop ends as the rules say. -/
theorem Ends.run_eq {passes : Nat} (h : p.Ends m k r) (hpasses : k ≤ passes) : p.run passes m = r :=
  resume_self p passes ▸ h.resume_eq hpasses hpasses

/-! ## Loop bodies and the budget -/

/-- A plan that has a result has spent its loop bodies. -/
theorem Ends.spent (h : p.Ends m k r) {a : α} {m' : Machine} (hr : r = .ok a m') :
    m.budget.Spent k m'.budget := by
  induction h generalizing m' with
  | step x straight m =>
    have hbudget := straight.blind.budget_eq m
    rw [hr] at hbudget
    exact hbudget ▸ .refl _
  | check line m => exact Run.checkBudget_spent hr
  | stop | unclear | refused | stopInside => cases hr
  | bind _ _ ih ih' => exact (ih rfl).trans (ih' hr)
  | @isolated _ _ _ _ r _ ih =>
    cases r with
    | ok a m₁ =>
      have hspent : Budget.Spent _ _ m₁.budget := ih rfl
      cases hr
      exact hspent
    | error e m₁ => cases hr
  | completed =>
    cases hr
    exact .refl _
  | again _ ticked _ _ ih ih' => exact ((Run.tick_ok ticked).2.trans (ih rfl)).trans (ih' hr)

/-- The passes of all loop bodies could be counted and were within the limit. -/
theorem Ends.affords (h : p.Ends m k r) : m.budget.Affords k := by
  induction h with
  | step | check | unclear | completed | refused => exact Budget.affords_zero _
  | stop _ ih | isolated _ ih => exact ih
  | bind first _ ih ih' => exact ih.append (first.spent rfl) ih'
  | stopInside _ ticked _ ih =>
    obtain ⟨haffords, hspent⟩ := Run.tick_ok ticked
    exact haffords.append hspent ih
  | again _ ticked body _ ih ih' =>
    obtain ⟨haffords, hspent⟩ := Run.tick_ok ticked
    exact (haffords.append hspent ih).append (hspent.trans (body.spent rfl)) ih'

/-- Under a limit that the counter can go beyond, a plan ends with a result or an error, unless the
counter is full from the start. -/
theorem Ends.answers {limit : UInt64} (h : p.Ends m k r) (hlimit : m.budget.limit = some limit)
    (hbelow : limit.toNat + 1 < UInt64.size)
    (hroom : m.budget.iterations.toNat + 1 < UInt64.size) : r.Answers := by
  induction h with
  | step x straight m => exact straight.blind.answers m
  | check line m => exact Run.checkBudget_answers line m
  | stop _ ih => exact (ih hlimit hroom).stop
  | bind first _ _ ih' =>
    have hspent := first.spent rfl
    exact ih' (hspent.limit.trans hlimit) (first.affords.room hspent hlimit hbelow hroom)
  | isolated _ ih => exact (ih hlimit hroom).mapMachine _
  | unclear => exact .error _ _
  | completed => exact .ok _ _
  | refused _ ticked =>
    rcases Run.tick_error ticked with ⟨fault, rfl⟩ | ⟨rfl, hfull⟩
    · exact .error _ _
    · have hcount := Budget.count?_eq_none_iff.1 hfull
      omega
  | stopInside _ ticked _ ih =>
    obtain ⟨haffords, hspent⟩ := Run.tick_ok ticked
    exact (ih (hspent.limit.trans hlimit) (haffords.room hspent hlimit hbelow hroom)).stop
  | again _ ticked body _ _ ih' =>
    obtain ⟨haffords, hspent⟩ := Run.tick_ok ticked
    have hboth := hspent.trans (body.spent rfl)
    exact ih' (hboth.limit.trans hlimit)
      ((haffords.append hspent body.affords).room hboth hlimit hbelow hroom)

end

/-! ## Every run ends -/

/-- A loop whose passes end comes to an end: each pass spends one of the counter's numbers. -/
theorem exists_ends_of_passes {σ : Type} {condition : Node} {pass : Nat → σ → Plan σ}
    (hpass : ∀ i state m, ∃ k r, (pass i state).Ends m k r) (done : Nat) (state : σ)
    (m : Machine) : ∃ k r, (loop condition pass done state).Ends m k r := by
  cases hholds : condition.holds m.scopes "for" with
  | error e => exact ⟨0, _, .unclear hholds⟩
  | ok holds =>
    cases holds with
    | false => exact ⟨0, _, .completed hholds⟩
    | true =>
      cases ticked : Run.tick condition.line m with
      | error e m₁ => exact ⟨0, _, .refused hholds ticked⟩
      | ok u m₁ =>
        obtain ⟨j, r, body⟩ := hpass (done + 1) state m₁
        cases r with
        | error e m₂ => exact ⟨1 + j, _, .stopInside hholds ticked body⟩
        | ok state' m₂ =>
          have hspent : UInt64.size - m₂.budget.iterations.toNat <
              UInt64.size - m.budget.iterations.toNat := by
            have hboth := ((Run.tick_ok ticked).2.trans (body.spent rfl)).iterations
            have hlt : m₂.budget.iterations.toNat < UInt64.size := UInt64.toNat_lt_size _
            omega
          obtain ⟨k, r, rest⟩ := exists_ends_of_passes hpass (done + 1) state' m₂
          exact ⟨1 + j + k, r, .again hholds ticked body rest⟩
termination_by UInt64.size - m.budget.iterations.toNat

/-- Every plan comes to an end. -/
theorem exists_ends {α : Type} (p : Plan α) (m : Machine) : ∃ k r, p.Ends m k r := by
  induction p generalizing m with
  | step x straight => exact ⟨0, _, .step x straight m⟩
  | check line => exact ⟨0, _, .check line m⟩
  | bind p f ih ih' =>
    obtain ⟨j, r, first⟩ := ih m
    cases r with
    | error e m' => exact ⟨j, _, .stop first⟩
    | ok a m' =>
      obtain ⟨k, r, second⟩ := ih' a m'
      exact ⟨j + k, r, .bind first second⟩
  | isolated p ih =>
    obtain ⟨k, r, inside⟩ := ih { m with scopes := m.scopes.push }
    exact ⟨k, _, .isolated inside⟩
  | loop condition pass done state ih => exact exists_ends_of_passes ih done state m

end Plan

/-- The run of a statement ends as its plan does, whatever bound on the loops it is given that is
not below that of the budget. -/
theorem Run.exec_of_ends {n : Node} {m : Machine} {k : Nat} {r : Ending Unit}
    (h : (Plan.statement n).Ends m k r) {passes : Nat} (hpasses : m.budget.passes ≤ passes) :
    exec passes n m = r := by
  rw [← Plan.statement_run]
  exact h.run_eq (Nat.le_trans h.affords.le_passes hpasses)

/-- No bound on the loops from that of the budget on makes a difference. -/
theorem Run.exec_eq_statement (n : Node) (m : Machine) {passes : Nat}
    (hpasses : m.budget.passes ≤ passes) : exec passes n m = Run.statement n m := by
  obtain ⟨k, r, h⟩ := (Plan.statement n).exists_ends m
  have hstatement : Run.statement n m = exec m.budget.passes n m := rfl
  rw [hstatement, exec_of_ends h hpasses, exec_of_ends h (Nat.le_refl _)]

/-- The run of a statement does not give up for want of passes. -/
theorem Run.statement_finished (n : Node) (m : Machine) : Ending.Finished (Run.statement n m) := by
  obtain ⟨k, r, h⟩ := (Plan.statement n).exists_ends m
  have hrun : Run.statement n m = r := Run.exec_of_ends h (Nat.le_refl _)
  rw [hrun]
  exact h.finished

/-- What a compilation gives when its run has ended. -/
def Ending.compiled : Ending Unit → Except Failure Compilation
  | .ok () m => .ok m.compilation
  | .error h _ => .error (.ofHalt h)

/-- A text that cannot be parsed is compiled with that error, whatever the limits are. -/
theorem compileWith_of_parse_error {source : String} {e : ParseError}
    (h : parse source = .error e) (options : Options) (outside : Outside) :
    compileWith options outside source = .error (.error (.parse e)) := by
  unfold compileWith compileLogged
  rw [h]

/-- A text that can be parsed is compiled by running its tree. -/
theorem compileWith_of_parse {source : String} {root : Node} (h : parse source = .ok root)
    (options : Options) (outside : Outside) :
    compileWith options outside source =
      Ending.compiled (Run.statement root (.start (.ofOptions options outside) .off)) := by
  have hoff : ∀ e, Log.off.record e = .off := fun _ => rfl
  unfold compileWith compileLogged
  rw [h]
  dsimp only
  rw [hoff, hoff]
  cases Run.statement root (.start (.ofOptions options outside) .off) <;> rfl

/-- A run that has not given up is compiled without giving up. -/
theorem Ending.Finished.compiled_ne {r : Ending Unit} (h : r.Finished) :
    r.compiled ≠ .error .unfinished := by
  rcases r with ⟨u, m⟩ | ⟨e, m⟩
  · exact nofun
  · cases e with
    | error | overflow => exact nofun
    | unfinished => exact absurd rfl (h m)

/-- A run with a result or an error is compiled to a result or an error. -/
theorem Ending.Answers.compiled {r : Ending Unit} (h : r.Answers) :
    (∃ c, r.compiled = .ok c) ∨ ∃ e, r.compiled = .error (.error e) := by
  cases h with
  | ok _ m => exact .inl ⟨_, rfl⟩
  | error e m => exact .inr ⟨_, rfl⟩

end FormScript
