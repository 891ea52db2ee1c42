import Mathlib.Data.Finset.Card
import Mathlib.Data.List.DropRight
import FormScript.Form
import FormScript.Proofs.Keyed

/-!
# What a store of forms holds

A store is used by putting forms in, asking for them by name and forgetting them all.
`FormStore.inserted` says which forms were put in since the store was last cleared, from the
operations alone. These are the forms that the store is left with (`FormStore.forms_leaves`), so it
keeps of them the place of the first and the definition of the last of each name
(`FormStore.Reflects`) after any operations (`store_reflects_operations`).
-/

namespace FormScript

namespace FormStore

/-! ## Operations -/

/-- What a store is asked to do. -/
inductive Operation where
  | insert (form : FormDefinition)
  | get (name : String)
  | clear
  deriving DecidableEq

/-- The form that an operation puts in. -/
def Operation.form? : Operation → Option FormDefinition
  | insert form => some form
  | get _ | clear => none

/-- Carries out an operation. A form that is put in is answered with the one that it replaces. -/
def perform (s : FormStore) : Operation → Option FormDefinition × FormStore
  | .insert form => s.insert form
  | .get name => (s.get? name, s)
  | .clear => (none, s.clear)

/-- The store after operations. -/
def leaves (s : FormStore) (operations : List Operation) : FormStore :=
  operations.foldl (fun s operation => (s.perform operation).2) s

/-- The answers to operations. -/
def answers (s : FormStore) : List Operation → List (Option FormDefinition)
  | [] => []
  | operation :: rest => (s.perform operation).1 :: (s.perform operation).2.answers rest

/-- The forms that operations put in behind the last time that they clear the store. -/
def inserted (operations : List Operation) : List FormDefinition :=
  (operations.rtakeWhile (· ≠ .clear)).filterMap Operation.form?

/-- The last form of the given name. -/
def latest (name : String) (forms : List FormDefinition) : Option FormDefinition :=
  (forms.filter fun form => form.name = name).getLast?

/-- A store holds of the given forms, by name, the place of the first and the definition of the
last. -/
structure Reflects (s : FormStore) (forms : List FormDefinition) : Prop where
  names : s.forms.map FormDefinition.name = (forms.map FormDefinition.name).eraseDups
  distinct : (s.forms.map FormDefinition.name).Nodup
  get : ∀ name, s.get? name = latest name forms
  entry : ∀ name, (s.forms.filter fun form => form.name = name) = (latest name forms).toList
  size : s.size = (forms.map FormDefinition.name).toFinset.card

/-! ## The forms that are left -/

/-- A form that is stored is exchanged for the one that is found under its name. -/
theorem insert_eq (s : FormStore) (form : FormDefinition) :
    s.insert form = (s.get? form.name, ⟨Keyed.put FormDefinition.name form s.forms⟩) := by
  rw [insert, Keyed.exchange_eq]
  rfl

/-- One more operation clears what was put in, or adds the form that it puts in. -/
theorem inserted_concat (operations : List Operation) (operation : Operation) :
    inserted (operations ++ [operation]) =
      if operation = .clear then [] else inserted operations ++ operation.form?.toList := by
  unfold inserted
  by_cases hclear : operation = .clear
  · simp [hclear]
  · rw [List.rtakeWhile_concat_pos _ _ _ (by simpa using hclear), List.filterMap_append,
      if_neg hclear]
    cases operation <;> rfl

/-- One more operation acts on the store that those before it leave. -/
theorem leaves_concat (s : FormStore) (operations : List Operation) (operation : Operation) :
    s.leaves (operations ++ [operation]) = ((s.leaves operations).perform operation).2 := by
  rw [leaves, List.foldl_append]
  rfl

/-- A store that starts empty is left with the forms that were put in since it was last cleared. -/
theorem forms_leaves (operations : List Operation) :
    (empty.leaves operations).forms = Keyed.putAll FormDefinition.name (inserted operations) := by
  induction operations using List.reverseRecOn with
  | nil => rfl
  | append_singleton operations operation ih =>
    rw [leaves_concat, inserted_concat]
    cases operation with
    | insert form =>
      rw [perform, insert_eq, if_neg (by simp), Operation.form?, Option.toList_some,
        Keyed.putAll_concat, ← ih]
    | get name => simpa [perform, Operation.form?] using ih
    | clear => rfl

/-- Forms that were put in one after the other are reflected. -/
theorem reflects_of_forms {s : FormStore} {forms : List FormDefinition}
    (h : s.forms = Keyed.putAll FormDefinition.name forms) : s.Reflects forms := by
  have hnames : s.forms.map FormDefinition.name = (forms.map FormDefinition.name).eraseDups := by
    rw [h, Keyed.map_putAll]
  have hdistinct : (s.forms.map FormDefinition.name).Nodup := by
    rw [h]
    exact Keyed.nodup_putAll forms
  have hget : ∀ name, s.get? name = latest name forms := by
    intro name
    rw [get?, h, Keyed.find?_putAll]
    rfl
  refine ⟨hnames, hdistinct, hget, ?_, ?_⟩
  · intro name
    rw [← hget name]
    exact Keyed.filter_eq_find? hdistinct name
  · have hset :
        (forms.map FormDefinition.name).toFinset = (s.forms.map FormDefinition.name).toFinset := by
      ext name
      rw [hnames, List.mem_toFinset, List.mem_toFinset, List.mem_eraseDups]
    rw [hset, List.toFinset_card_of_nodup hdistinct, List.length_map]
    rfl

/-! ## Answers -/

/-- An operation is answered from the store that the operations before it leave. -/
theorem getElem?_answers (s : FormStore) (before : List Operation) (operation : Operation)
    (behind : List Operation) :
    (s.answers (before ++ operation :: behind))[before.length]? =
      some ((s.leaves before).perform operation).1 := by
  induction before generalizing s with
  | nil => rfl
  | cons first before ih => exact ih (s.perform first).2

end FormStore

open FormStore in
/-- Whatever forms are put into a new store, asked for and forgotten: the store holds of those put
in since it was last cleared the first place and the last definition of each name, and a form that
is put in is answered with what would have been found under its name just before. -/
theorem store_reflects_operations :
    (∀ operations, (empty.leaves operations).Reflects (inserted operations)) ∧
    ∀ before form behind, (empty.answers (before ++ .insert form :: behind))[before.length]? =
      some ((empty.leaves before).get? form.name) := by
  refine ⟨fun operations => reflects_of_forms (forms_leaves operations),
    fun before form behind => ?_⟩
  rw [getElem?_answers, perform, insert_eq]

end FormScript
