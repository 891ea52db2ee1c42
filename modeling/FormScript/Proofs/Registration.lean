import FormScript.Proofs.WellFormed

/-!
# Forms are stored whole or not at all

Until all fields of a form are collected, its declaration reads and writes variables, counts passes
and opens frames, and does nothing else: the blocks of a form hold no line that prints or declares,
so the forms and the output are the same wherever it stops (`Run.collectFields_within`). Behind that
it cannot fail any more. The store takes the form in with one `insert`, which moves no other form
(`FormStore.takesIn_insert`). So a declaration that fails leaves the forms as they were and one that
succeeds changes one of them (`declareForm_whole_or_not`).
-/

namespace FormScript

open Node (HasRole)
open Grammar (FormContainer)

/-! ## What a store takes in -/

/-- One store is another one with a form in it: all other forms keep their definitions and their
order, and the name of the form keeps its place if it had one and comes last otherwise. -/
structure FormStore.TakesIn (s : FormStore) (form : FormDefinition) (s' : FormStore) : Prop where
  stored : s'.get? form.name = some form
  others : (s'.forms.filter fun f => f.name ≠ form.name) =
    s.forms.filter fun f => f.name ≠ form.name
  names : s'.forms.map FormDefinition.name =
    if form.name ∈ s.forms.map FormDefinition.name then s.forms.map FormDefinition.name
    else s.forms.map FormDefinition.name ++ [form.name]

/-- What is stored is taken in. -/
theorem FormStore.takesIn_insert (s : FormStore) (form : FormDefinition) :
    s.TakesIn form (s.insert form).2 where
  stored := s.get?_insert_self form
  others := Keyed.filter_put form s.forms
  names := Keyed.map_put form s.forms

/-! ## Collecting fields -/

/-- The forms and the output are the same. -/
def Machine.KeepsResults (m m' : Machine) : Prop :=
  m'.forms = m.forms ∧ m'.output = m.output

/-- Writing and counting passes change neither the forms nor the output. -/
theorem keepsResults_writeRelation : WriteRelation Machine.KeepsResults where
  refl _ := ⟨rfl, rfl⟩
  trans h h' := ⟨h'.1.trans h.1, h'.2.trans h.2⟩
  record _ _ := ⟨rfl, rfl⟩
  look _ := ⟨rfl, rfl⟩
  count _ := ⟨rfl, rfl⟩
  assign _ _ _ := ⟨rfl, rfl⟩
  isolated h := h

namespace Run

variable {R : Machine → Machine → Prop}

/-- An assignment keeps to a relation that writing keeps to. -/
theorem assignTo_within (hR : WriteRelation R) (target value : Node) :
    Within R (assignTo target value) := by
  have hQ := hR.toQuietRelation
  cases target with
  | ident o name =>
    exact ((eval_quiet value).within hQ).bind hQ fun v => assign_within hR o.line name v
  | _ => exact .fail hQ _ _

/-- The lines that a form admits in its blocks write variables at most. -/
theorem execAll_within (hR : WriteRelation R) {container : FormContainer} (passes : Nat)
    {body : List Node} (hadmitted : ∀ n ∈ body, container.admits n = true) :
    Within R (execAll passes body) := by
  have hQ := hR.toQuietRelation
  induction body with
  | nil =>
    rw [execAll]
    exact .pure hQ ()
  | cons n body ih =>
    rw [List.forall_mem_cons] at hadmitted
    have hline : Within R (exec passes n) := by
      cases n with
      | field | blank =>
        rw [exec]
        exact Within.bind hQ ((Quiet.record _).within hQ) fun _ => .pure hQ ()
      | assign o target value =>
        rw [exec]
        exact Within.bind hQ ((Quiet.record _).within hQ) fun _ => assignTo_within hR target value
      | _ => cases hadmitted.1
    rw [execAll]
    exact (checkBudget_within hR n.line).bind hQ fun _ => hline.bind hQ fun _ => ih hadmitted.2

/-- Collecting the fields of a form keeps to what reading, writing, counting and opening frames keep
to. -/
theorem collectFields_within (hR : WriteRelation R) (passes : Nat) (form : String)
    {body : List Node} (hbody : ∀ n ∈ body, HasRole .child n) (fields : FieldList) :
    Within R (collectFields passes form body fields) := by
  have hQ := hR.toQuietRelation
  induction body generalizing fields with
  | nil =>
    rw [collectFields]
    exact .pure hQ fields
  | cons child rest ih =>
    rw [List.forall_mem_cons] at hbody
    have hrest : ∀ fields, Within R (collectFields passes form rest fields) := ih hbody.2
    cases hbody.1 with
    | childField field =>
      cases field
      rw [collectFields]
      exact ((addField_quiet _ _ _ _ _ _ _).within hQ).bind hQ hrest
    | @childBlock condition lines o o' container _ _ admitted =>
      have hholds : ∀ construct, Within R (holds construct condition) := fun construct =>
        (holds_quiet construct condition).within hQ
      cases container with
      | branch =>
        rw [FormContainer.toNode, collectFields]
        refine (hholds "if").bind hQ fun b => ?_
        split
        · exact ((addBlock_quiet _ _ _ _).within hQ).bind hQ hrest
        · exact hrest fields
      | loop =>
        rw [FormContainer.toNode, collectFields]
        refine (isolated_within hR ?_).bind hQ hrest
        -- A pass runs the block for its assignments before it adds the fields.
        have hpass : ∀ pass fields, Within R (do
            exec passes (.block o' lines)
            addBlock form (some pass) fields (.block o' lines)) := by
          intro pass fields
          refine Within.bind hQ ?_ fun _ => (addBlock_quiet _ _ _ _).within hQ
          rw [exec]
          exact Within.bind hQ ((Quiet.record _).within hQ) fun _ =>
            execAll_within hR passes admitted
        refine (whileHolds_within hR _ (hholds "for") hpass passes 0 fields).bind hQ fun r => ?_
        exact Within.bind hQ ((Quiet.record _).within hQ) fun _ => .pure hQ r.2

/-- Storing a form with all its fields does not fail. -/
theorem exists_registerForm (name : String) (line : Nat) (fields : FieldList) (m : Machine) :
    ∃ m', registerForm name line fields m = .ok () m' := by
  rw [registerForm, bind_ok (x := record _) rfl, bind_ok (x := register _) rfl]
  split
  · exact ⟨_, rfl⟩
  · exact ⟨_, rfl⟩

end Run

/-- The declaration of a form of a program prints nothing. If it fails, wherever that is, all forms
are as they were, and if it succeeds, the store has taken in one form of the declared name. -/
theorem declareForm_whole_or_not {source : String} {root : Node} (hparse : parse source = .ok root)
    {o : Origin} {name : String} {body : List Node} (hform : .form o name body ∈ root.walk)
    (passes line : Nat) (m : Machine) :
    (Ending.machine (Run.declareForm passes name body line m)).output = m.output ∧
    (∀ e m', Run.declareForm passes name body line m = .error e m' → m'.forms = m.forms) ∧
    ∀ m', Run.declareForm passes name body line m = .ok () m' →
      ∃ fields, m.forms.TakesIn ⟨name, fields⟩ m'.forms := by
  have hbody : ∀ child ∈ body, HasRole .child child :=
    (Grammar.hasRole_of_parse hparse).formShaped _ hform
  have hcollect := Run.collectFields_within keepsResults_writeRelation passes name hbody .empty m
  rw [Run.declareForm, Run.storeCollected, Run.bind_run]
  cases hfields : Run.collectFields passes name body .empty m with
  | error e m₁ =>
    rw [hfields] at hcollect
    refine ⟨hcollect.2, ?_, ?_⟩
    · rintro _ _ ⟨⟩
      exact hcollect.1
    · intro m' h
      cases h
  | ok fields m₁ =>
    rw [hfields] at hcollect
    obtain ⟨m₂, hregister⟩ := Run.exists_registerForm name line fields m₁
    obtain ⟨log, rfl⟩ := Run.registerForm_ok hregister
    dsimp only
    rw [hregister]
    refine ⟨hcollect.2, ?_, ?_⟩
    · intro e m' h
      cases h
    · rintro _ ⟨⟩
      refine ⟨fields.toList, ?_⟩
      rw [← hcollect.1]
      exact m₁.forms.takesIn_insert _

/-- A machine that comes to the form with another definition of it, in front of a second form. -/
def Sample.stored : Machine :=
  { entry with forms := ⟨[⟨"f", []⟩, ⟨"g", []⟩]⟩ }

/-- The same machine without a pass left. -/
def Sample.exhausted : Machine :=
  { stored with budget := .ofOptions ⟨some 0, none, none⟩ .still }

/-- The same machine, to which the signal to stop comes before the second line of the loop's
block. -/
def Sample.signalled : Machine :=
  { stored with budget := .ofOptions ⟨none, none, some false⟩ fun look => ⟨0, look = 2⟩ }

open Sample in
/-- A form that the limit stops, one that the signal stops, and one that is stored. -/
theorem declareForm_whole_or_not_stored :
    (∃ e m', Run.declareForm 1 "f" body 3 exhausted = .error e m' ∧ m'.forms = exhausted.forms) ∧
    (∃ m', Run.declareForm 1 "f" body 3 signalled = .error (.error ⟨5, .cancelled⟩) m' ∧
      m'.forms = signalled.forms) ∧
    ∃ m', Run.declareForm 1 "f" body 3 stored = .ok () m' ∧
      ∃ fields, stored.forms.TakesIn ⟨"f", fields⟩ m'.forms := by
  have hform : .form ⟨9, 3⟩ "f" body ∈ root.walk := by
    simp [root, Node.walk, Node.walkAll]
  have hwhole := declareForm_whole_or_not parse_source hform 1 3
  exact ⟨⟨_, _, rfl, (hwhole exhausted).2.1 _ _ rfl⟩, ⟨_, rfl, (hwhole signalled).2.1 _ _ rfl⟩,
    _, rfl, (hwhole stored).2.2 _ rfl⟩

end FormScript
