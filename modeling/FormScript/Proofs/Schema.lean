import FormScript.Component
import FormScript.Proofs.Printing.Token

/-!
# What a component checks

The text of a component starts with its schema, which has a line for each field: the name, a colon
and what is asked of the field. All that is free in a component, the name of the form and the
labels, placeholders and choices of its fields, comes later. So the schema can be read from the
front. A name ends at its colon, what is asked of a field ends where no dot follows
(`wording_append_inj`), and a comma tells that there is another line. Two forms with the same
component thus check the same (`component_determines_checks`).
-/

namespace FormScript.Component

/-- What a component checks of a field. -/
structure Check where
  name : String
  isCheckbox : Bool
  isRequired : Bool
  deriving DecidableEq, Repr

namespace Check

/-- The check of a field. -/
def ofField (field : FormField) : Check :=
  ⟨field.name, field.kind = .checkbox, field.properties.required⟩

/-- The type of what is entered. -/
def type (check : Check) : String :=
  if check.isCheckbox then "z.boolean()" else "z.string()"

/-- What is asked of it beyond its type. -/
def demand (check : Check) : String :=
  match check.isRequired, check.isCheckbox with
  | false, _ => ""
  | true, false => ".min(1, 'This field is required')"
  | true, true => ".refine((val) => val === true, 'This field is required')"

/-- The line of a schema for a check. -/
def line (check : Check) : List Char :=
  ' ' :: ' ' :: (check.name.toList ++ ':' :: ' ' :: (check.type.toList ++ check.demand.toList))

end Check

/-- A validation is made from the type and the demand of a check. -/
theorem validation_eq (field : FormField) :
    validation field = (Check.ofField field).type ++ (Check.ofField field).demand := by
  obtain ⟨kind, name, label, required, placeholder, options⟩ := field
  cases kind <;> cases required <;> rfl

/-- An entry of the schema is the line of a check. -/
theorem toList_schemaEntry (field : FormField) :
    (schemaEntry field).toList = (Check.ofField field).line := by
  have hentry : schemaEntry field = "  " ++ field.name ++ ": " ++ validation field := rfl
  rw [hentry, validation_eq]
  simp [Check.line, Check.ofField]

/-! ## Lines of a schema -/

/-- What stands behind a line of a schema: more lines, each behind a comma, then a line end and the
rest of the text. -/
def linesBehind : List Check → List Char → List Char
  | [], rest => '\n' :: rest
  | check :: checks, rest => ',' :: '\n' :: (check.line ++ linesBehind checks rest)

/-- Behind a line of a schema there is no dot, so a demand is never taken for it. -/
theorem linesBehind_ne_dot (checks : List Check) (rest more : List Char) :
    linesBehind checks rest ≠ '.' :: more := by
  cases checks <;> simp [linesBehind]

/-- The lines of a schema are the first one and what stands behind it. -/
theorem intercalate_line (check : Check) (checks : List Check) (rest : List Char) :
    [',', '\n'].intercalate ((check :: checks).map Check.line) ++ '\n' :: rest =
      check.line ++ linesBehind checks rest := by
  induction checks generalizing check with
  | nil => simp [linesBehind]
  | cons check' checks ih =>
    have hrest := ih check'
    rw [List.map_cons] at hrest
    rw [List.map_cons, List.map_cons, List.intercalate_cons_cons, List.append_assoc,
      List.append_assoc, hrest]
    rfl

/-- A name holds no colon. -/
theorem colon_not_mem_of_isName {word : String} (h : isName word = true) : ':' ∉ word.toList := by
  rw [isName] at h
  split at h
  · cases h
  · next c cs heq =>
    rw [Bool.and_eq_true, List.all_eq_true] at h
    rw [heq, List.mem_cons]
    rintro (rfl | hmem)
    · exact absurd h.1 (by decide)
    · exact absurd (h.2 _ hmem) (by decide)

/-- The first colon divides a text. -/
theorem append_colon_inj {cs cs' ds ds' : List Char} (hcs : ':' ∉ cs) (hcs' : ':' ∉ cs')
    (h : cs ++ ':' :: ds = cs' ++ ':' :: ds') : cs = cs' ∧ ds = ds' := by
  rcases List.append_eq_append_iff.1 h with ⟨between, rfl, hbehind⟩ | ⟨between, rfl, hbehind⟩
  · cases between with
    | nil => exact ⟨(List.append_nil cs).symm, (List.cons.inj hbehind).2⟩
    | cons c between =>
      obtain ⟨rfl, -⟩ := List.cons.inj hbehind
      simp at hcs'
  · cases between with
    | nil => exact ⟨List.append_nil cs', (List.cons.inj hbehind).2.symm⟩
    | cons c between =>
      obtain ⟨rfl, -⟩ := List.cons.inj hbehind
      simp at hcs

/-- What is asked of a required field goes on behind its type. -/
theorem Check.exists_demand (check : Check) (h : check.isRequired = true) :
    ∃ more, check.demand.toList = '.' :: more := by
  obtain ⟨name, isCheckbox, isRequired⟩ := check
  obtain rfl : isRequired = true := h
  cases isCheckbox <;> simp [demand]

/-- What is not required is not demanded. -/
theorem Check.demand_of_not (check : Check) (h : check.isRequired = false) :
    check.demand.toList = [] := by
  simp [demand, h]

section
variable {check check' : Check} {checks checks' : List Check}
  {behind behind' rest rest' : List Char}

/-- What is asked of a field ends where no dot follows. -/
theorem wording_append_inj (hbehind : ∀ more, behind ≠ '.' :: more)
    (hbehind' : ∀ more, behind' ≠ '.' :: more)
    (h : check.type.toList ++ (check.demand.toList ++ behind) =
      check'.type.toList ++ (check'.demand.toList ++ behind')) :
    check.isCheckbox = check'.isCheckbox ∧ check.isRequired = check'.isRequired ∧
    behind = behind' := by
  have hcheckbox : check.isCheckbox = check'.isCheckbox := by
    cases hc : check.isCheckbox <;> cases hc' : check'.isCheckbox <;>
      simp [Check.type, hc, hc'] at h ⊢
  have htype : check.type = check'.type := by rw [Check.type, hcheckbox, Check.type]
  rw [htype, List.append_cancel_left_eq] at h
  refine ⟨hcheckbox, ?_⟩
  cases hr : check.isRequired with
  | false =>
    rw [check.demand_of_not hr, List.nil_append] at h
    cases hr' : check'.isRequired with
    | false =>
      rw [check'.demand_of_not hr'] at h
      exact ⟨rfl, h⟩
    | true =>
      obtain ⟨more, hmore⟩ := check'.exists_demand hr'
      rw [hmore] at h
      exact absurd h (hbehind _)
  | true =>
    cases hr' : check'.isRequired with
    | false =>
      obtain ⟨more, hmore⟩ := check.exists_demand hr
      rw [check'.demand_of_not hr', hmore] at h
      exact absurd h.symm (hbehind' _)
    | true =>
      have hdemand : check.demand = check'.demand := by
        rw [Check.demand, hcheckbox, hr, ← hr', Check.demand]
      rw [hdemand, List.append_cancel_left_eq] at h
      exact ⟨rfl, h⟩

/-- A line of a schema can be told from what stands behind it. -/
theorem line_append_inj (hname : isName check.name = true) (hname' : isName check'.name = true)
    (hbehind : ∀ more, behind ≠ '.' :: more) (hbehind' : ∀ more, behind' ≠ '.' :: more)
    (h : check.line ++ behind = check'.line ++ behind') : check = check' ∧ behind = behind' := by
  have hline :
      check.name.toList ++ ':' :: ' ' :: (check.type.toList ++ (check.demand.toList ++ behind)) =
        check'.name.toList ++ ':' :: ' ' ::
          (check'.type.toList ++ (check'.demand.toList ++ behind')) := by
    simpa [Check.line] using h
  obtain ⟨hnames, hwording⟩ :=
    append_colon_inj (colon_not_mem_of_isName hname) (colon_not_mem_of_isName hname') hline
  obtain ⟨hcheckbox, hrequired, hrest⟩ :=
    wording_append_inj hbehind hbehind' (List.cons.inj hwording).2
  obtain ⟨name, isCheckbox, isRequired⟩ := check
  obtain ⟨name', isCheckbox', isRequired'⟩ := check'
  obtain rfl : name = name' := String.toList_inj.1 hnames
  obtain rfl : isCheckbox = isCheckbox' := hcheckbox
  obtain rfl : isRequired = isRequired' := hrequired
  exact ⟨rfl, hrest⟩

/-- Checks can be told from what stands behind a line of a schema. -/
theorem linesBehind_inj (hnames : ∀ check ∈ checks, isName check.name = true)
    (hnames' : ∀ check ∈ checks', isName check.name = true)
    (h : linesBehind checks rest = linesBehind checks' rest') : checks = checks' := by
  induction checks generalizing checks' with
  | nil =>
    cases checks' with
    | nil => rfl
    | cons check' checks' => simp [linesBehind] at h
  | cons check checks ih =>
    cases checks' with
    | nil => simp [linesBehind] at h
    | cons check' checks' =>
      rw [List.forall_mem_cons] at hnames hnames'
      have hlines := (List.cons.inj (List.cons.inj h).2).2
      obtain ⟨rfl, hbehind⟩ := line_append_inj hnames.1 hnames'.1 (linesBehind_ne_dot checks rest)
        (linesBehind_ne_dot checks' rest') hlines
      rw [ih hnames.2 hnames'.2 hbehind]

/-- The lines of a schema can be told from what stands behind them. -/
theorem intercalate_line_inj (hnames : ∀ check ∈ checks, isName check.name = true)
    (hnames' : ∀ check ∈ checks', isName check.name = true)
    (h : [',', '\n'].intercalate (checks.map Check.line) ++ '\n' :: rest =
      [',', '\n'].intercalate (checks'.map Check.line) ++ '\n' :: rest') : checks = checks' := by
  cases checks with
  | nil =>
    cases checks' with
    | nil => rfl
    | cons check' checks' =>
      rw [intercalate_line] at h
      simp [Check.line] at h
  | cons check checks =>
    cases checks' with
    | nil =>
      rw [intercalate_line] at h
      simp [Check.line] at h
    | cons check' checks' =>
      rw [intercalate_line, intercalate_line] at h
      have hbehind :
          linesBehind (check :: checks) rest = linesBehind (check' :: checks') rest' := by
        rw [linesBehind, h, linesBehind]
      exact linesBehind_inj hnames hnames' hbehind

end

/-! ## Components -/

/-- A text of lines starts with its first two. -/
theorem exists_ofLines (first second : String) (lines : List String) :
    ∃ rest, ofLines (first :: second :: lines) = first ++ "\n" ++ (second ++ rest) := by
  cases lines with
  | nil => exact ⟨"", by simp [ofLines]⟩
  | cons third lines =>
    exact ⟨"\n" ++ ofLines (third :: lines), by
      simp only [ofLines, String.intercalate_cons_cons, String.append_assoc]⟩

/-- A schema is the lines of its checks between a head and a foot. -/
theorem toList_schema (fields : List FormField) :
    (schema fields).toList = "const formSchema = z.object(\x7b\n".toList ++
      ([',', '\n'].intercalate ((fields.map Check.ofField).map Check.line) ++
        '\n' :: "\x7d);".toList) := by
  have hschema : schema fields =
      "const formSchema = z.object(\x7b\n" ++ ",\n".intercalate (fields.map schemaEntry) ++
        "\n\x7d);" := rfl
  have hlines : (fields.map schemaEntry).map String.toList =
      (fields.map Check.ofField).map Check.line := by
    rw [List.map_map, List.map_map]
    exact List.map_congr_left fun field _ => toList_schemaEntry field
  rw [hschema, String.toList_append, String.toList_append, String.toList_intercalate, hlines,
    List.append_assoc]
  rfl

/-- A component has the lines of its schema in front of all that is free in it. -/
theorem toList_ofForm (form : FormDefinition) :
    ∃ rest, (ofForm form).toList = (header ++ "\n").toList ++
      ("const formSchema = z.object(\x7b\n".toList ++
      ([',', '\n'].intercalate ((form.fields.map Check.ofField).map Check.line) ++
        '\n' :: rest)) := by
  obtain ⟨rest, hrest⟩ : ∃ rest, ofForm form = header ++ "\n" ++ (schema form.fields ++ rest) := by
    unfold ofForm
    exact exists_ofLines header (schema form.fields) _
  refine ⟨"\x7d);".toList ++ rest.toList, ?_⟩
  have hbehind := String.toList_append (s := schema form.fields) (t := rest)
  rw [toList_schema, List.append_assoc, List.append_assoc, List.cons_append] at hbehind
  rw [hrest, String.toList_append, hbehind]

/-- A component tells what it checks: if two forms have the same component, their fields agree in
number and order, in name, in being a checkbox or not and in being required or not, whatever their
labels, placeholders and choices are. -/
theorem component_determines_checks {form form' : FormDefinition}
    (hnames : ∀ field ∈ form.fields, isName field.name = true)
    (hnames' : ∀ field ∈ form'.fields, isName field.name = true) (h : ofForm form = ofForm form') :
    form.fields.map Check.ofField = form'.fields.map Check.ofField := by
  obtain ⟨rest, hform⟩ := toList_ofForm form
  obtain ⟨rest', hform'⟩ := toList_ofForm form'
  rw [← h, hform] at hform'
  refine intercalate_line_inj ?_ ?_ (List.append_cancel_left (List.append_cancel_left hform'))
  · exact List.forall_mem_map.2 hnames
  · exact List.forall_mem_map.2 hnames'

/-- A required checkbox with a label that reads like the end of a schema and the start of
another. -/
def Sample.terms (form placeholder : String) (options : List String) : FormDefinition :=
  ⟨form, [⟨.string, "email", ⟨"Email", false, "", options⟩⟩,
    ⟨.checkbox, "terms",
      ⟨"\n\x7d);\nconst formSchema = z.object(\x7b\n  email: z.boolean()", true, placeholder, []⟩⟩]⟩

/-- Two forms that differ in what their component does not show. -/
theorem terms_determines_checks :
    Sample.terms "signup" "yes" [] ≠ Sample.terms "Signup" "" ["no"] ∧
    ofForm (Sample.terms "signup" "yes" []) = ofForm (Sample.terms "Signup" "" ["no"]) ∧
    (Sample.terms "signup" "yes" []).fields.map Check.ofField =
      (Sample.terms "Signup" "" ["no"]).fields.map Check.ofField := by
  have hname : name "signup" = name "Signup" := by decide
  have hsame :
      ofForm (Sample.terms "signup" "yes" []) = ofForm (Sample.terms "Signup" "" ["no"]) := by
    unfold ofForm
    rw [show (Sample.terms "signup" "yes" []).name = "signup" from rfl,
      show (Sample.terms "Signup" "" ["no"]).name = "Signup" from rfl, hname]
    rfl
  exact ⟨by decide, hsame, component_determines_checks (by decide) (by decide) hsame⟩

end FormScript.Component
