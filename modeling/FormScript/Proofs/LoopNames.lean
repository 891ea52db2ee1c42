import FormScript.Proofs.Faults
import FormScript.Proofs.Equality
import FormScript.Proofs.SideBySide

/-!
# The names of fields in loops

A field in a form's loop gets the number of its pass behind an underscore. The digits of a number
hold no underscore, so the last underscore of the new name tells the name and the number apart
again, also where the name itself ends in one with digits behind it (`suffixed_inj`). Between passes
all names come from passes before (`FieldList.FromPasses`), so no name of the next pass is among
them, and within a pass the names differ if those in the block do. So a form that consists of one
loop over fields of different names is never refused for a name that is taken
(`declareForm_loop_noDuplicate`).
-/

namespace FormScript

open Node (IsField HasRole)
open Grammar (FormContainer)

/-! ## Names with numbers -/

/-- What stands behind the last underscore of a text, and what stands before it, are unique. -/
theorem append_underscore_inj {cs cs' ds ds' : List Char} (hds : '_' ∉ ds) (hds' : '_' ∉ ds')
    (h : cs ++ '_' :: ds = cs' ++ '_' :: ds') : cs = cs' ∧ ds = ds' := by
  -- If the two underscores are not at one place, one of them is among the digits behind the other.
  rcases List.append_eq_append_iff.1 h with ⟨between, hcs, hbehind⟩ | ⟨between, hcs, hbehind⟩
  · cases between with
    | nil => simp_all
    | cons c between =>
      obtain ⟨-, rfl⟩ := List.cons.inj hbehind
      simp at hds
  · cases between with
    | nil => simp_all
    | cons c between =>
      obtain ⟨-, rfl⟩ := List.cons.inj hbehind
      simp at hds'

/-- A number is written without underscores. -/
theorem underscore_not_mem_repr (k : Nat) : '_' ∉ k.repr.toList := by
  intro hmem
  have hdigit := isDigit_of_mem_repr hmem
  revert hdigit
  decide

/-- A number is known from the text of its digits. -/
theorem eq_of_repr_toList_eq {j k : Nat} (h : j.repr.toList = k.repr.toList) : j = k := by
  rw [Nat.repr, Nat.repr, String.toList_ofList, String.toList_ofList] at h
  rw [← digitsValue_toDigits j, h, digitsValue_toDigits]

/-- The characters of a name with the number of a pass. -/
theorem toList_suffixed (name : String) (pass : Nat) :
    (suffixed name (some pass)).toList = name.toList ++ '_' :: pass.repr.toList := by
  have hsuffixed : suffixed name (some pass) = name ++ "_" ++ pass.repr := rfl
  rw [hsuffixed, String.toList_append, String.toList_append, List.append_assoc]
  rfl

/-- A numbered name comes from one name and one number only. -/
theorem suffixed_inj {name name' : String} {pass pass' : Nat}
    (h : suffixed name (some pass) = suffixed name' (some pass')) :
    name = name' ∧ pass = pass' := by
  have hlists := congrArg String.toList h
  rw [toList_suffixed, toList_suffixed] at hlists
  obtain ⟨hname, hpass⟩ :=
    append_underscore_inj (underscore_not_mem_repr pass) (underscore_not_mem_repr pass') hlists
  exact ⟨String.toList_inj.1 hname, eq_of_repr_toList_eq hpass⟩

/-! ## Fields with new names -/

/-- The name of a field declaration. -/
def Node.fieldName? : Node → Option String
  | .field _ _ name _ => some name
  | _ => none

/-- The name of the first field comes first. -/
theorem filterMap_fieldName?_field (o : Origin) (kind : FieldKind) (name : String)
    (properties lines : List Node) :
    (Node.field o kind name properties :: lines).filterMap Node.fieldName? =
      name :: lines.filterMap Node.fieldName? :=
  rfl

/-- An error that is not about the name of a field. -/
def NoDuplicate (e : RuntimeError) : Prop :=
  ∀ form field, e.fault ≠ .duplicateField form field

/-- Regular faults are not about the name of a field. -/
theorem noDuplicate_regularIn (n : Node) : n.RegularIn NoDuplicate :=
  fun _ _ _ hfault => hfault.2

namespace FieldList

/-- The names of fields. -/
def fieldNames (fields : FieldList) : List String :=
  fields.toList.map FormField.name

/-- The names of fields have the numbers of passes up to a last one. -/
def FromPasses (last : Nat) (fields : FieldList) : Prop :=
  ∀ name ∈ fields.fieldNames, ∃ base pass, pass ≤ last ∧ name = suffixed base (some pass)

variable {fields fields' : FieldList}

/-- A field with a new name can be added. -/
theorem exists_push? {field : FormField} (h : field.name ∉ fields.fieldNames) :
    ∃ fields', fields.push? field = some fields' := by
  have hnew : field.name ∉ fields.names := by
    rw [fields.mem_names]
    simpa [fieldNames, toList] using h
  exact ⟨_, if_neg hnew⟩

/-- The next pass has no name that is there already. -/
theorem FromPasses.not_mem {last : Nat} (h : fields.FromPasses last) (name : String) :
    suffixed name (some (last + 1)) ∉ fields.fieldNames := by
  intro hmem
  obtain ⟨base, pass, hle, heq⟩ := h _ hmem
  obtain ⟨-, rfl⟩ := suffixed_inj heq
  omega

/-- A pass leaves names with its own number behind those of the passes before. -/
theorem FromPasses.next {last : Nat} {scopes : Scopes} {body : List Node}
    (h : fields.FromPasses last)
    (hpushed : (fieldsIn scopes (some (last + 1)) body).foldlM push? fields = some fields') :
    fields'.FromPasses (last + 1) := by
  intro name hname
  rw [fieldNames, (foldlM_push?_some hpushed).1, List.map_append, List.mem_append] at hname
  rcases hname with hold | hnew
  · obtain ⟨base, pass, hle, rfl⟩ := h name hold
    exact ⟨base, pass, by omega, rfl⟩
  · obtain ⟨field, hfield, rfl⟩ := List.mem_map.1 hnew
    obtain ⟨n, -, hn⟩ := List.mem_filterMap.1 hfield
    cases n with
    | field o kind base properties =>
      cases hn
      exact ⟨base, last + 1, le_rfl, rfl⟩
    | _ => cases hn

end FieldList

/-! ## A pass through the block -/

namespace Run

variable {form : String} {pass : Nat}

/-- A field with a new name is not refused for its name. -/
theorem addField_noDuplicate {o : Origin} {kind : FieldKind} {name : String}
    {properties : List Node} (h : IsField (.field o kind name properties)) {fields : FieldList}
    (hnew : suffixed name (some pass) ∉ fields.fieldNames) :
    FailsOnly NoDuplicate (addField form (some pass) o.line kind name properties fields) := by
  obtain ⟨_, _, _, hproperties⟩ := h
  refine (applyProperties_failsOnly hproperties (fun n _ => noDuplicate_regularIn n) kind _ _).bind
    ?_
  intro resolved
  obtain ⟨fields', hpush⟩ :
      ∃ fields', fields.push? ⟨kind, suffixed name (some pass), resolved⟩ = some fields' :=
    FieldList.exists_push? hnew
  simp only [hpush]
  exact .pure fields'

/-- Nor are the fields of a block whose names are different and new. -/
theorem addFields_noDuplicate {lines : List Node} (hlines : ∀ n ∈ lines, HasRole .line n)
    (hadmitted : ∀ n ∈ lines, FormContainer.loop.admits n = true)
    (hdistinct : (lines.filterMap Node.fieldName?).Nodup) {fields : FieldList}
    (hnew : ∀ name ∈ lines.filterMap Node.fieldName?,
      suffixed name (some pass) ∉ fields.fieldNames) :
    FailsOnly NoDuplicate (addFields form (some pass) lines fields) := by
  induction lines generalizing fields with
  | nil => exact .pure fields
  | cons n rest ih =>
    rw [List.forall_mem_cons] at hlines hadmitted
    have hrest := @ih hlines.2 hadmitted.2
    cases n with
    | field o kind name properties =>
      rw [filterMap_fieldName?_field, List.nodup_cons] at hdistinct
      rw [filterMap_fieldName?_field, List.forall_mem_cons] at hnew
      have hfield : IsField (.field o kind name properties) := by
        cases hlines.1 with
        | field field => exact field
      refine (addField_noDuplicate hfield hnew.1).bind_of_ok fun hok => hrest hdistinct.2 ?_
      intro other hother hmem
      rw [FieldList.fieldNames, (FieldList.push?_some (addField_ok hok)).2, List.map_append,
        List.mem_append] at hmem
      rcases hmem with hold | hlast
      · exact hnew.2 other hother hold
      · obtain ⟨rfl, -⟩ := suffixed_inj (List.mem_singleton.1 hlast)
        exact hdistinct.1 hother
    | assign | blank => exact hrest hdistinct hnew
    | _ => cases hadmitted.1

/-- The lines of a form's loop are run without regard to the names of fields. -/
theorem execAll_noDuplicate {lines : List Node} (hlines : ∀ n ∈ lines, HasRole .line n)
    (hadmitted : ∀ n ∈ lines, FormContainer.loop.admits n = true) (passes : Nat) :
    FailsOnly NoDuplicate (execAll passes lines) := by
  refine execAll_failsOnly (fun n hn => ?_) fun n _ => noDuplicate_regularIn n
  have hline := hlines n hn
  have hadmits := hadmitted n hn
  cases hline with
  | field field =>
    cases field
    rw [exec]
    exact (record_failsOnly _).bind fun _ => .pure ()
  | blank =>
    rw [exec]
    exact (record_failsOnly _).bind fun _ => .pure ()
  | assign o o' name value =>
    rw [exec]
    refine (record_failsOnly _).bind fun _ => ?_
    refine (eval_failsOnly value (noDuplicate_regularIn _)).bind fun v => ?_
    exact assign_failsOnly (noDuplicate_regularIn (.ident o' name)).self name v
  | _ => cases hadmits

/-- From a loop over fields of different names, the fields are collected without a name that is
taken twice. -/
theorem collectFields_loop_noDuplicate (form : String) (o o' : Origin) {condition : Node}
    {lines : List Node} (hcondition : Node.IsExpression condition)
    (hlines : ∀ n ∈ lines, HasRole .line n)
    (hadmitted : ∀ n ∈ lines, FormContainer.loop.admits n = true)
    (hdistinct : (lines.filterMap Node.fieldName?).Nodup) (passes : Nat) :
    FailsOnly NoDuplicate
      (collectFields passes form [.loop o condition (.block o' lines)] .empty) := by
  have hpass : ∀ {done fields}, FieldList.FromPasses done fields → FailsOnly NoDuplicate (do
      exec passes (.block o' lines)
      addBlock form (some (done + 1)) fields (.block o' lines)) := by
    intro done fields hfields
    refine FailsOnly.bind ?_ fun _ => ?_
    · rw [exec]
      exact (record_failsOnly _).bind fun _ => execAll_noDuplicate hlines hadmitted passes
    · exact addFields_noDuplicate hlines hadmitted hdistinct fun name _ => hfields.not_mem name
  have hnext : ∀ {done fields m fields' m'}, FieldList.FromPasses done fields → (do
      exec passes (.block o' lines)
      addBlock form (some (done + 1)) fields (.block o' lines)) m = .ok fields' m' →
      FieldList.FromPasses (done + 1) fields' := by
    intro done fields m fields' m' hfields hok
    obtain ⟨scopes, log, budget, -, -, -, hpushed⟩ := pass_ok hlines hadmitted hok
    exact hfields.next hpushed
  have hempty : FieldList.FromPasses 0 .empty := List.forall_mem_nil _
  rw [collectFields]
  refine (isolated_failsOnly (FailsOnly.bind ?_ fun r => ?_)).bind fun fields => ?_
  · have hholds := holds_failsOnly hcondition (noDuplicate_regularIn condition) "for"
    exact whileHolds_failsOnly_of_fit (noDuplicate_regularIn condition).self hholds hpass
      hnext passes hempty
  · exact (record_failsOnly _).bind fun _ => .pure r.2
  · rw [collectFields]
    exact .pure fields

end Run

/-- A form of a program that consists of one loop, over fields of different names, does not fail
because the name of a field is taken, wherever it is declared, within whatever limits, and however
often its loop turns. -/
theorem declareForm_loop_noDuplicate {source : String} {root : Node}
    (hparse : parse source = .ok root) {o o' : Origin} {name : String} {condition block : Node}
    (hform : .form o name [.loop o' condition block] ∈ root.walk)
    (hdistinct : (block.children.filterMap Node.fieldName?).Nodup) (passes line : Nat)
    (m : Machine) :
    ∀ e m', Run.declareForm passes name [.loop o' condition block] line m = .error (.error e) m' →
      ∀ form field, e.fault ≠ .duplicateField form field := by
  have hchild : HasRole .child (.loop o' condition block) :=
    (Grammar.hasRole_of_parse hparse).formShaped _ hform _ (.head _)
  obtain ⟨hcondition, o₁, lines, rfl, hlines, hadmitted⟩ := hchild.loop_child
  have hcollect :=
    Run.collectFields_loop_noDuplicate name o' o₁ hcondition hlines hadmitted hdistinct passes
  intro e m'
  exact fun h => hcollect.bind (fun fields => Run.registerForm_failsOnly name line fields) h

namespace Sample

/-- A program with an endless loop in a form, over two fields of which the second one has the name
that the first one gets in the first pass. -/
def endless : String :=
  "\x7b\nform f\x7bfor true\x7b\nstring_field a\x7b\x7dstring_field a_1\x7b\x7d\x7d\x7d\n\x7d"

/-- The loop of the form. -/
def endlessLoop : Node :=
  .loop ⟨4, 2⟩ (.bool ⟨0, 2⟩ true)
    (.block ⟨3, 2⟩ [.field ⟨1, 3⟩ .string "a" [], .field ⟨2, 3⟩ .string "a_1" []])

/-- The tree of the program with the endless loop. -/
theorem parse_endless : parse endless = .ok (.block ⟨6, 1⟩ [.form ⟨5, 2⟩ "f" [endlessLoop]]) := by
  decide +kernel

/-- A machine that makes eleven passes. -/
def limited : Machine :=
  .start (.ofOptions ⟨some 11, none, none⟩ .still) .off

/-- The fault that ends a computation. -/
def fault? {α : Type} : Ending α → Option RuntimeFault
  | .error (.error e) _ => some e.fault
  | _ => none

/-- The limit stops the loop behind its eleventh pass, and no name has come twice until then. -/
theorem fault?_declareForm_limited :
    fault? (Run.declareForm 12 "f" [endlessLoop] 2 limited) = some (.iterationsExceeded 11) := by
  decide +kernel

end Sample

open Sample in
/-- Eleven passes put twenty-two names together, up to `a_11` and `a_1_11`, before the limit stops
the loop. -/
theorem declareForm_loop_noDuplicate_endless :
    ∃ e m', Run.declareForm 12 "f" [endlessLoop] 2 limited = .error (.error e) m' ∧
      e.fault = .iterationsExceeded 11 ∧ ∀ form field, e.fault ≠ .duplicateField form field := by
  have hform :
      .form ⟨5, 2⟩ "f" [endlessLoop] ∈
        (Node.block ⟨6, 1⟩ [.form ⟨5, 2⟩ "f" [endlessLoop]]).walk := by
    simp [Node.walk, Node.walkAll]
  have hdistinct : (["a", "a_1"] : List String).Nodup := by decide
  have hnone := declareForm_loop_noDuplicate parse_endless hform hdistinct 12 2 limited
  have hfault := fault?_declareForm_limited
  cases hrun : Run.declareForm 12 "f" [endlessLoop] 2 limited with
  | ok u m' =>
    rw [hrun] at hfault
    cases hfault
  | error halt m' =>
    rw [hrun] at hfault
    cases halt with
    | overflow | unfinished => cases hfault
    | error e => exact ⟨e, m', rfl, Option.some.inj hfault, hnone e m' hrun⟩

end FormScript
