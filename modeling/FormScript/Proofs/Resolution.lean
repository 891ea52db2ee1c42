import FormScript.Proofs.Writing

/-!
# What fields resolve to

`FieldProperties.updated` says what a list of properties makes of those that are set already: of
each known key the last value of the right sort counts, and options are looked up in the scopes and
are left out where they are empty or no texts. `Node.fieldIn?` is the form field that a declaration
stands for. A run that adds the fields of a block to a form pushes these fields, one after the
other, and changes nothing but the log (`Run.addFields_ok`).
-/

namespace FormScript

namespace Node

/-- The text that a property sets under a key. -/
def textAt? (key : String) : Node → Option String
  | .scalar _ k (.str _ text) => if k = key then some text else none
  | _ => none

/-- The truth value that a property sets under a key. -/
def truthAt? (key : String) : Node → Option Bool
  | .scalar _ k (.bool _ b) => if k = key then some b else none
  | _ => none

/-- The items that a property sets under a key. -/
def itemsAt? (key : String) : Node → Option (List Node)
  | .array _ k items => if k = key then some items else none
  | _ => none

/-- The text that an item of an array stands for. -/
def itemText? (scopes : Scopes) : Node → Option String
  | .str _ text => some text
  | .ident _ name =>
    match scopes.get? name with
    | some ⟨_, some (.string text)⟩ => some text
    | _ => none
  | _ => none

/-- The options that a property sets. -/
def optionsIn? (scopes : Scopes) (n : Node) : Option (List String) :=
  (n.itemsAt? "options").map fun items => (items.filterMap (itemText? scopes)).filter (· ≠ "")

/-- The last of the values that nodes set, if they set any. -/
def lastSet {α : Type} (value? : Node → Option α) (ns : List Node) (default : α) : α :=
  (ns.filterMap value?).getLast?.getD default

end Node

/-- What properties make of those that are set already. -/
def FieldProperties.updated (p : FieldProperties) (scopes : Scopes) (properties : List Node) :
    FieldProperties where
  label := Node.lastSet (Node.textAt? "label") properties p.label
  required := Node.lastSet (Node.truthAt? "required") properties p.required
  placeholder := Node.lastSet (Node.textAt? "placeholder") properties p.placeholder
  options := Node.lastSet (Node.optionsIn? scopes) properties p.options

/-- The form field of a declaration, inside the loop pass of the given number if there is one. -/
def Node.fieldIn? (scopes : Scopes) (pass : Option Nat) : Node → Option FormField
  | .field _ kind name properties =>
    some ⟨kind, suffixed name pass, FieldProperties.default.updated scopes properties⟩
  | _ => none

/-- The form fields of the declarations in a block. -/
def fieldsIn (scopes : Scopes) (pass : Option Nat) (body : List Node) : List FormField :=
  body.filterMap (Node.fieldIn? scopes pass)

/-- The first declaration of a block gives the first field, with its properties resolved. -/
theorem fieldsIn_field (scopes : Scopes) (pass : Option Nat) (o : Origin) (kind : FieldKind)
    (name : String) (properties body : List Node) :
    fieldsIn scopes pass (.field o kind name properties :: body) =
      ⟨kind, suffixed name pass, FieldProperties.default.updated scopes properties⟩ ::
        fieldsIn scopes pass body :=
  rfl

/-! ## Inversion -/

/-- Where two steps succeed, the first one did, and the second one did on its result. -/
theorem exists_of_bind_eq_ok {ε α β : Type} {x : Except ε α} {f : α → Except ε β} {b : β}
    (h : (x >>= f) = .ok b) : ∃ a, x = .ok a ∧ f a = .ok b := by
  cases x with
  | ok a => exact ⟨a, rfl, h⟩
  | error e => cases h

/-- What succeeds at a line succeeds without it. -/
theorem locate_ok {α : Type} {line : Nat} {x : Except RuntimeFault α} {a : α}
    (h : locate line x = .ok a) : x = .ok a := by
  cases x with
  | ok a' =>
    cases h
    rfl
  | error e => cases h

/-- A name that has a value stands for a variable with this value. -/
theorem Scopes.value_ok {s : Scopes} {name : String} {v : Value} (h : s.value name = .ok v) :
    ∃ d, s.get? name = some d ∧ d.value = some v := by
  unfold value get at h
  cases hd : s.get? name with
  | none =>
    rw [hd] at h
    cases h
  | some d =>
    refine ⟨d, rfl, ?_⟩
    obtain ⟨type, value⟩ := d
    rw [hd] at h
    cases value with
    | none => cases h
    | some value =>
      cases h
      rfl

/-! ## Properties -/

section
variable {α : Type} {scopes : Scopes}

/-- The first node counts only where no later one sets a value. -/
theorem Node.lastSet_cons (value? : Node → Option α) (n : Node) (ns : List Node) (default : α) :
    lastSet value? (n :: ns) default = lastSet value? ns ((value? n).getD default) := by
  unfold lastSet
  cases h : value? n with
  | none => simp [h]
  | some a => simp [h, List.getLast?_cons]

/-- The text of an item. What is no text has the empty one. -/
theorem resolveOption_ok {n : Node} {option : String} (h : resolveOption scopes n = .ok option) :
    option = (n.itemText? scopes).getD "" := by
  cases n with
  | ident o name =>
    obtain ⟨v, hv, h⟩ := exists_of_bind_eq_ok h
    obtain ⟨d, hd, hvalue⟩ := Scopes.value_ok (locate_ok hv)
    obtain ⟨type, value⟩ := d
    cases hvalue
    rw [Node.itemText?, hd]
    cases v <;> cases h <;> rfl
  | _ =>
    cases h
    rfl

/-- Options are the texts of the items, without empty ones. -/
theorem resolveOptions_ok {items : List Node} {options : List String}
    (h : resolveOptions scopes items = .ok options) :
    options = (items.filterMap (Node.itemText? scopes)).filter (· ≠ "") := by
  induction items generalizing options with
  | nil =>
    cases h
    rfl
  | cons n items ih =>
    obtain ⟨option, hoption, h⟩ := exists_of_bind_eq_ok h
    obtain ⟨rest, hrest, h⟩ := exists_of_bind_eq_ok h
    cases h
    rw [resolveOption_ok hoption, ih hrest]
    cases htext : n.itemText? scopes with
    | none => simp [htext]
    | some text =>
      by_cases hempty : text = ""
      · simp [htext, hempty]
      · simp [htext, hempty]

/-- A property that has an effect sets what it says, and one that has none sets nothing that
counts. -/
theorem applyProperty_ok {field : String} {p : FieldProperties} {n : Node}
    {effect : Option FieldProperties} (h : applyProperty scopes field p n = .ok effect)
    (ns : List Node) : (effect.getD p).updated scopes ns = p.updated scopes (n :: ns) := by
  simp only [FieldProperties.updated, Node.lastSet_cons]
  unfold applyProperty at h
  split at h
  · obtain ⟨options, hoptions, h⟩ := exists_of_bind_eq_ok h
    cases h
    simp [Node.textAt?, Node.truthAt?, Node.optionsIn?, Node.itemsAt?, resolveOptions_ok hoptions]
  · cases h
  · cases h
    simp [Node.textAt?, Node.truthAt?, Node.optionsIn?, Node.itemsAt?]
  · cases h
    simp [Node.textAt?, Node.truthAt?, Node.optionsIn?, Node.itemsAt?]
  · cases h
    simp [Node.textAt?, Node.truthAt?, Node.optionsIn?, Node.itemsAt?]
  · -- A single value under another key, or of another sort than its key asks for.
    rename_i value hoptions hlabel hplaceholder hrequired
    cases h
    cases value with
    | str o text =>
      have hlabel := hlabel o text
      have hplaceholder := hplaceholder o text
      simp_all [Node.textAt?, Node.truthAt?, Node.optionsIn?, Node.itemsAt?]
    | bool o b =>
      have hrequired := hrequired o b
      simp_all [Node.textAt?, Node.truthAt?, Node.optionsIn?, Node.itemsAt?]
    | _ => simp [Node.textAt?, Node.truthAt?, Node.optionsIn?, Node.itemsAt?]
  · rename_i hoptions
    cases h
    simp_all [Node.textAt?, Node.truthAt?, Node.optionsIn?, Node.itemsAt?]
  · cases h

end

/-! ## Fields -/

namespace FieldList

/-- A field that could be added has a new name and stands behind the others. -/
theorem push?_some {l l' : FieldList} {field : FormField} (h : l.push? field = some l') :
    field.name ∉ l.toList.map FormField.name ∧ l'.toList = l.toList ++ [field] := by
  unfold push? at h
  split at h
  · cases h
  · rename_i hnew
    cases h
    rw [l.mem_names] at hnew
    refine ⟨by simpa [toList] using hnew, ?_⟩
    simp [toList]

/-- Fields that are pushed one after the other stand in this order behind those before them, and all
names are different if they were. -/
theorem foldlM_push?_some {l l' : FieldList} {fields : List FormField}
    (h : fields.foldlM push? l = some l') :
    l'.toList = l.toList ++ fields ∧
      ((l.toList.map FormField.name).Nodup → (l'.toList.map FormField.name).Nodup) := by
  induction fields generalizing l with
  | nil =>
    cases h
    exact ⟨(List.append_nil _).symm, id⟩
  | cons field fields ih =>
    rw [List.foldlM_cons] at h
    obtain ⟨l₁, hpush, h⟩ := Option.bind_eq_some_iff.1 h
    obtain ⟨hnew, hlist⟩ := push?_some hpush
    obtain ⟨hlist', hnodup⟩ := ih h
    refine ⟨by rw [hlist', hlist, List.append_assoc, List.singleton_append], fun hl => hnodup ?_⟩
    rw [hlist, List.map_append, List.nodup_append]
    refine ⟨hl, by simp, ?_⟩
    rintro a ha b hb rfl
    rw [List.map_singleton, List.mem_singleton] at hb
    exact hnew (hb ▸ ha)

end FieldList

namespace Run

/-- Where a run of two computations succeeds, the first one did, and the second one did behind
it. -/
theorem exists_of_bind_ok {α β : Type} {x : Run α} {f : α → Run β} {m m' : Machine} {b : β}
    (h : (x >>= f) m = .ok b m') : ∃ a m₁, x m = .ok a m₁ ∧ f a m₁ = .ok b m' := by
  rw [bind_run] at h
  cases hx : x m with
  | ok a m₁ =>
    rw [hx] at h
    exact ⟨a, m₁, rfl, h⟩
  | error e m₁ =>
    rw [hx] at h
    cases h

/-- A run that passes on a success leaves the machine as it was. -/
theorem ofExcept_ok {α : Type} {x : Except RuntimeError α} {m m' : Machine} {a : α}
    (h : ofExcept x m = .ok a m') : x = .ok a ∧ m' = m := by
  cases x with
  | ok a' =>
    cases h
    exact ⟨rfl, rfl⟩
  | error e => cases h

/-- A quiet computation changes the log alone. -/
theorem Quiet.ok {α : Type} {x : Run α} {m m' : Machine} {a : α} (hx : Quiet x)
    (h : x m = .ok a m') : ∃ log, m' = { m with log } := by
  have hquiet : QuietRelation fun m m' => ∃ log, m' = { m with log } :=
    { refl := fun m => ⟨m.log, rfl⟩
      trans := by
        rintro m₁ m₂ m₃ ⟨log, rfl⟩ ⟨log', rfl⟩
        exact ⟨log', rfl⟩
      record := fun m e => ⟨m.log.record e, rfl⟩ }
  have hwithin := hx.within hquiet m
  rwa [h] at hwithin

section
variable {m m' : Machine}

/-- Where they succeed, the properties of a field are updated by the last value of each. -/
theorem applyProperties_ok {kind : FieldKind} {field : String} {properties : List Node}
    {p p' : FieldProperties} (h : applyProperties kind field properties p m = .ok p' m') :
    p' = p.updated m.scopes properties := by
  induction properties generalizing p m with
  | nil =>
    cases h
    rfl
  | cons n properties ih =>
    rw [applyProperties, ← bind_assoc] at h
    obtain ⟨effect, m₁, hread, h⟩ := exists_of_bind_ok h
    obtain ⟨happly, rfl⟩ := ofExcept_ok (x := applyProperty m.scopes field p n) hread
    rw [← applyProperty_ok happly]
    cases effect with
    | some p₁ => exact ih h
    | none =>
      obtain ⟨_, m₂, hrecord, h⟩ := exists_of_bind_ok h
      cases hrecord
      have hrest := ih h
      exact hrest

/-- Where it succeeds, a field is added with its name and its resolved properties. -/
theorem addField_ok {form name : String} {pass : Option Nat} {line : Nat} {kind : FieldKind}
    {properties : List Node} {fields fields' : FieldList}
    (h : addField form pass line kind name properties fields m = .ok fields' m') :
    fields.push? ⟨kind, suffixed name pass, FieldProperties.default.updated m.scopes properties⟩ =
      some fields' := by
  obtain ⟨p, m₁, hproperties, h⟩ := exists_of_bind_ok h
  rw [← applyProperties_ok hproperties]
  cases hpush : fields.push? ⟨kind, suffixed name pass, p⟩ with
  | none =>
    simp only [hpush] at h
    cases h
  | some fields₁ =>
    simp only [hpush] at h
    cases h
    rfl

/-- The fields of a block are pushed in order. -/
theorem addFields_ok {form : String} {pass : Option Nat} {body : List Node}
    {fields fields' : FieldList} (h : addFields form pass body fields m = .ok fields' m') :
    (fieldsIn m.scopes pass body).foldlM FieldList.push? fields = some fields' := by
  induction body generalizing fields m with
  | nil =>
    cases h
    rfl
  | cons n body ih =>
    cases n with
    | field o kind name properties =>
      obtain ⟨fields₁, m₁, hfield, h⟩ := exists_of_bind_ok h
      obtain ⟨log, rfl⟩ := (addField_quiet _ _ _ _ _ _ _).ok hfield
      have hrest := ih h
      rw [fieldsIn_field, List.foldlM_cons, addField_ok hfield]
      exact hrest
    | assign | blank => exact ih h
    | _ => cases h

end

end Run

end FormScript
