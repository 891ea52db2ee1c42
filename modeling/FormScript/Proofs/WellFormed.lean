import FormScript.Proofs.Unrolling
import FormScript.Proofs.Words

/-!
# Well-formed compilations

The names and texts of a program's tree come from its tokens, so its names are names and its texts
hold no quote. Running the program adds no quote: texts are joined, numbers are written with digits
and a minus sign, and what a variable holds was computed from these (`Node.eval_unquoted`). Field
names get the number of a loop pass behind an underscore, options that are empty are left out, a
form refuses a second field of a name, and the store of forms replaces a form of the same name. So
the forms and the output are well-formed in every machine that a program leaves
(`Run.exec_keepsWellFormed`), and in every compilation (`compileWith_wellFormed`).
-/

namespace FormScript

/-! ## Texts and values without quotes -/

/-- A text without a quote. -/
def Unquoted (text : String) : Prop :=
  '"' ∉ text.toList

instance (text : String) : Decidable (Unquoted text) :=
  inferInstanceAs (Decidable ('"' ∉ text.toList))

/-- Texts without quotes have none together. -/
theorem Unquoted.append {s t : String} (hs : Unquoted s) (ht : Unquoted t) : Unquoted (s ++ t) := by
  rw [Unquoted, String.toList_append, List.mem_append]
  exact not_or.2 ⟨hs, ht⟩

/-- A number is written with digits. -/
theorem isDigit_of_mem_repr {n : Nat} {c : Char} (h : c ∈ (Nat.repr n).toList) :
    c.isDigit = true := by
  rw [Nat.repr, String.toList_ofList] at h
  exact Nat.isDigit_of_mem_toDigits (by decide) (Nat.le_refl 10) h

/-- A number is written without quotes. -/
theorem repr_unquoted (n : Nat) : Unquoted n.repr := by
  intro h
  have hdigit := isDigit_of_mem_repr h
  revert hdigit
  decide

/-- An integer is written without quotes. -/
theorem intText_unquoted (n : Int64) : Unquoted (intText n) := by
  rw [intText]
  cases n.toInt with
  | ofNat m => exact repr_unquoted m
  | negSucc m => exact Unquoted.append (by decide) (repr_unquoted (m + 1))

namespace Value

/-- A value that is no text with a quote. -/
def Unquoted : Value → Prop
  | .string s => FormScript.Unquoted s
  | .int _ | .bool _ => True

/-- A value without quotes is displayed without them. -/
theorem Unquoted.display {v : Value} (h : v.Unquoted) : FormScript.Unquoted v.display := by
  cases v with
  | int n => exact intText_unquoted n
  | string s => exact h
  | bool b => cases b <;> decide

end Value

/-- Operators on integers make no quotes. -/
theorem onInts_unquoted {op : BinaryOp} {left right : Int64} {v : Value}
    (h : onInts op left right = .ok v) : v.Unquoted := by
  cases op with
  | add | sub | mul | div =>
    rw [onInts] at h
    cases hresult : arithmetic _ left right with
    | error fault =>
      rw [hresult] at h
      cases h
    | ok n =>
      rw [hresult] at h
      cases h
      trivial
  | equal | greater | less | and | or =>
    cases h
    trivial

/-- Operators on texts without quotes make none. -/
theorem onStrings_unquoted {op : BinaryOp} {left right : String} {v : Value} (hleft : Unquoted left)
    (hright : Unquoted right) (h : onStrings op left right = .ok v) : v.Unquoted := by
  cases op with
  | add =>
    cases h
    exact hleft.append hright
  | equal | greater | less =>
    cases h
    trivial
  | sub | mul | div | and | or => cases h

/-- Operators on truth values make no quotes. -/
theorem onBools_unquoted {op : BinaryOp} {left right : Bool} {v : Value}
    (h : onBools op left right = .ok v) : v.Unquoted := by
  cases op with
  | equal | greater | less | and | or =>
    cases h
    trivial
  | add | sub | mul | div => cases h

/-- Infix operators on values without quotes make none. -/
theorem BinaryOp.apply_unquoted {op : BinaryOp} {left right v : Value} (hleft : left.Unquoted)
    (hright : right.Unquoted) (h : op.apply left right = .ok v) : v.Unquoted := by
  unfold apply at h
  split at h
  · exact onInts_unquoted h
  · exact onStrings_unquoted hleft hright h
  · exact onBools_unquoted h
  · cases h

/-- Prefix operators on values without quotes make none. -/
theorem UnaryOp.apply_unquoted {op : UnaryOp} {operand v : Value} (hoperand : operand.Unquoted)
    (h : op.apply operand = .ok v) : v.Unquoted := by
  unfold apply at h
  split at h
  · cases h
    exact hoperand
  next n =>
    cases hresult : fitted UnaryOp.minus.text (fit? (-n.toInt)) with
    | error fault =>
      rw [hresult] at h
      cases h
    | ok n =>
      rw [hresult] at h
      cases h
      trivial
  · cases h
    trivial
  · cases h

/-! ## Variables without quotes -/

namespace Scopes

/-- No visible variable holds a text with a quote. Frames that are covered do not matter here:
between the statements of a program there are none, and the unrolling of a form is computed on
copies. -/
def Unquoted (s : Scopes) : Prop :=
  ∀ name d v, s.get? name = some d → d.value = some v → v.Unquoted

section
variable {s s' : Scopes} {name : String}

/-- A program without variables holds no quotes. -/
theorem unquoted_empty : Unquoted .empty := by
  intro name d v hd
  cases hd

/-- A new variable holds no quotes. -/
theorem Unquoted.declare {type : Ty} (hs : s.Unquoted) (h : s.declare name type = .ok s') :
    s'.Unquoted := by
  obtain ⟨-, rfl⟩ := declare_ok h
  intro other d v hd hv
  rw [get?_withTop_insert] at hd
  split at hd
  · cases hd
    cases hv
  · exact hs other d v hd hv

/-- Scopes without quotes have none behind an assignment of a value without them. -/
theorem Unquoted.assign {value : Value} (hs : s.Unquoted) (hvalue : value.Unquoted)
    (h : s.assign name value = (.ok (), s')) : s'.Unquoted := by
  intro other d v hd hv
  rw [(assign_ok h).2] at hd
  split at hd
  · cases hd
    cases hv
    exact hvalue
  · exact hs other d v hd hv

end

end Scopes

/-- An expression whose texts hold no quotes has no quote in its value. -/
theorem Node.eval_unquoted {s : Scopes} (hs : s.Unquoted) {v : Value} (n : Node)
    (hn : n.SpelledIn Token.Spellable) (h : n.eval s = .ok v) : v.Unquoted := by
  match n with
  | .int _ _ | .bool _ _ | .scan _ =>
    cases h
    trivial
  | .str o content =>
    cases h
    exact hn.words (.text content) (.head _)
  | .ident o name =>
    obtain ⟨d, hd, hv⟩ := Scopes.value_ok (locate_ok h)
    exact hs name d v hd hv
  | .unary o op operand =>
    obtain ⟨w, hw, h⟩ := exists_of_bind_eq_ok h
    have hoperand := operand.eval_unquoted hs (hn.part (.head _)) hw
    exact UnaryOp.apply_unquoted hoperand (locate_ok h)
  | .binary o op left right =>
    obtain ⟨l, hl, h⟩ := exists_of_bind_eq_ok h
    obtain ⟨r, hr, h⟩ := exists_of_bind_eq_ok h
    have hleft := left.eval_unquoted hs (hn.part (.head _)) hl
    have hright := right.eval_unquoted hs (hn.part (.tail _ (.head _))) hr
    exact BinaryOp.apply_unquoted hleft hright (locate_ok h)
  | .block _ _ | .assign _ _ _ | .declare _ _ _ _ | .branch _ _ _ _ | .loop _ _ _ | .print _ _
  | .field _ _ _ _ | .scalar _ _ _ | .array _ _ _ | .form _ _ _ | .blank _ => cases h

/-- Scopes without quotes have none behind an assignment that can be spelled. -/
theorem Scopes.Unquoted.write? {s s' : Scopes} {name : String} {value : Node} (hs : s.Unquoted)
    (hvalue : value.SpelledIn Token.Spellable) (h : s.write? name value = some s') :
    s'.Unquoted := by
  obtain ⟨v, hv, hassign⟩ := write?_eq_some_iff.1 h
  exact hs.assign (value.eval_unquoted hs hvalue hv) hassign

/-- The assignments of a block add no quotes. -/
theorem Scopes.Unquoted.executed? {s s' : Scopes} {body : List Node} (hs : s.Unquoted)
    (hbody : ∀ n ∈ body, n.SpelledIn Token.Spellable) (h : s.executed? body = some s') :
    s'.Unquoted := by
  have hvalues : ∀ assignment ∈ body.filterMap Node.assignment?,
      assignment.2.SpelledIn Token.Spellable := by
    intro assignment hmem
    obtain ⟨n, hn, hassignment⟩ := List.mem_filterMap.1 hmem
    unfold Node.assignment? at hassignment
    split at hassignment
    · cases hassignment
      exact (hbody _ hn).part (.tail _ (.head _))
    · cases hassignment
  unfold Scopes.executed? at h
  generalize body.filterMap Node.assignment? = assignments at h hvalues
  induction assignments generalizing s with
  | nil =>
    cases h
    exact hs
  | cons assignment rest ih =>
    rw [List.forall_mem_cons] at hvalues
    rw [List.foldlM_cons] at h
    obtain ⟨s₁, hwrite, h⟩ := Option.bind_eq_some_iff.1 h
    exact ih (hs.write? hvalues.1 hwrite) h hvalues.2

/-! ## Fields -/

/-- Properties whose texts hold no quotes, with no option that is empty. -/
structure FieldProperties.WellFormed (p : FieldProperties) : Prop where
  label : Unquoted p.label
  placeholder : Unquoted p.placeholder
  options : ∀ option ∈ p.options, option ≠ "" ∧ Unquoted option

/-- A field with a name and well-formed properties. -/
structure FormField.WellFormed (field : FormField) : Prop where
  name : isName field.name = true
  properties : field.properties.WellFormed

/-- What holds of the default and of every value that nodes set holds of the last one. -/
theorem Node.lastSet_of_forall {α : Type} {P : α → Prop} {value? : Node → Option α} {ns : List Node}
    {default : α} (hdefault : P default) (h : ∀ n ∈ ns, ∀ a, value? n = some a → P a) :
    P (lastSet value? ns default) := by
  rw [lastSet]
  cases hlast : (ns.filterMap value?).getLast? with
  | none => exact hdefault
  | some a =>
    obtain ⟨n, hn, ha⟩ := List.mem_filterMap.1 (List.mem_of_getLast? hlast)
    exact h n hn a ha

/-- The text of a property that can be spelled holds no quotes. -/
theorem Node.textAt?_unquoted {n : Node} {key text : String} (hn : n.SpelledIn Token.Spellable)
    (h : n.textAt? key = some text) : Unquoted text := by
  unfold textAt? at h
  split at h
  · split at h
    · cases h
      exact (hn.part (.head _)).words (.text _) (.head _)
    · cases h
  · cases h

/-- The text of an item that can be spelled holds no quotes. -/
theorem Node.itemText?_unquoted {s : Scopes} {n : Node} {text : String} (hs : s.Unquoted)
    (hn : n.SpelledIn Token.Spellable) (h : n.itemText? s = some text) : Unquoted text := by
  unfold itemText? at h
  split at h
  · cases h
    exact hn.words (.text _) (.head _)
  next name =>
    split at h
    next type text' hvariable =>
      cases h
      exact hs name _ _ hvariable rfl
    next => cases h
  · cases h

/-- The options of a property that can be spelled are not empty and hold no quotes. -/
theorem Node.optionsIn?_wellFormed {s : Scopes} {n : Node} {options : List String} (hs : s.Unquoted)
    (hn : n.SpelledIn Token.Spellable) (h : n.optionsIn? s = some options) :
    ∀ option ∈ options, option ≠ "" ∧ Unquoted option := by
  obtain ⟨items, hitems, rfl⟩ := Option.map_eq_some_iff.1 h
  have hitem : ∀ item ∈ items, item.SpelledIn Token.Spellable := by
    unfold itemsAt? at hitems
    split at hitems
    · split at hitems
      · cases hitems
        exact fun item hmem => hn.part hmem
      · cases hitems
    · cases hitems
  intro option hoption
  obtain ⟨hmem, hne⟩ := List.mem_filter.1 hoption
  obtain ⟨item, hitem', htext⟩ := List.mem_filterMap.1 hmem
  exact ⟨of_decide_eq_true hne, item.itemText?_unquoted hs (hitem item hitem') htext⟩

/-- Properties that can be spelled are resolved to well-formed ones. -/
theorem FieldProperties.updated_wellFormed {s : Scopes} {properties : List Node} (hs : s.Unquoted)
    (hproperties : ∀ n ∈ properties, n.SpelledIn Token.Spellable) :
    (FieldProperties.default.updated s properties).WellFormed where
  label := Node.lastSet_of_forall (by decide) fun n hn _ => n.textAt?_unquoted (hproperties n hn)
  placeholder :=
    Node.lastSet_of_forall (by decide) fun n hn _ => n.textAt?_unquoted (hproperties n hn)
  options := by
    have hdefault : ∀ option ∈ FieldProperties.default.options, option ≠ "" ∧ Unquoted option :=
      nofun
    exact Node.lastSet_of_forall hdefault fun n hn _ =>
      n.optionsIn?_wellFormed hs (hproperties n hn)

/-- A name with more letters and digits behind it is a name. -/
theorem isName_append {word tail : String} (hword : isName word = true)
    (htail : ∀ c ∈ tail.toList, isWordPart c = true) : isName (word ++ tail) = true := by
  rw [isName] at hword ⊢
  rw [String.toList_append]
  cases hcs : word.toList with
  | nil => simp [hcs] at hword
  | cons c cs =>
    obtain ⟨hc, hparts⟩ : isWordStart c = true ∧ ∀ c ∈ cs, isWordPart c = true := by
      simpa [hcs] using hword
    simp only [List.cons_append, hc, Bool.true_and, List.all_append, Bool.and_eq_true,
      List.all_eq_true]
    exact ⟨hparts, htail⟩

/-- The number of a pass behind an underscore leaves a name a name. -/
theorem isName_suffixed {name : String} (h : isName name = true) (pass : Option Nat) :
    isName (suffixed name pass) = true := by
  cases pass with
  | none => exact h
  | some k =>
    have hsuffixed : suffixed name (some k) = name ++ "_" ++ k.repr := rfl
    have hunderscore : ∀ c ∈ "_".toList, isWordPart c = true := by simp [isWordPart]
    rw [hsuffixed]
    refine isName_append (isName_append h hunderscore) fun c hc => ?_
    rw [isWordPart, Char.isAlphanum, isDigit_of_mem_repr hc]
    simp

/-- The fields of a block that can be spelled are well-formed. -/
theorem fieldsIn_wellFormed {s : Scopes} {pass : Option Nat} {body : List Node} (hs : s.Unquoted)
    (hbody : ∀ n ∈ body, n.SpelledIn Token.Spellable) :
    ∀ field ∈ fieldsIn s pass body, field.WellFormed := by
  intro field hfield
  obtain ⟨n, hn, hfield⟩ := List.mem_filterMap.1 hfield
  cases n with
  | field o kind name properties =>
    cases hfield
    have hwords := (hbody _ hn).words (.identifier name) (.tail _ (.head _))
    exact ⟨isName_suffixed hwords.1 pass, FieldProperties.updated_wellFormed hs fun _ =>
      (hbody _ hn).part⟩
  | _ => cases hfield

/-- The copies of a loop hold no quotes. -/
theorem Passes.unquoted {condition : Node} {body : List Node} {entry : Scopes} {n : Nat}
    {copies : Nat → Scopes} (h : Passes condition body entry n copies) (hentry : entry.Unquoted)
    (hbody : ∀ n ∈ body, n.SpelledIn Token.Spellable) {k : Nat} (hk : k ≤ n) :
    (copies k).Unquoted := by
  induction k with
  | zero =>
    rw [h.start]
    exact hentry
  | succ k ih => exact (ih (Nat.le_of_succ_le hk)).executed? hbody (h.executed k hk)

/-- A child of a form that can be spelled stands for well-formed fields. -/
theorem Unrolls.wellFormed {entry : Scopes} {child : Node} {fields : List FormField} {n : Nat}
    (h : Unrolls entry child fields n) (hentry : entry.Unquoted)
    (hchild : child.SpelledIn Token.Spellable) : ∀ field ∈ fields, field.WellFormed := by
  cases h with
  | @field _ field h =>
    have hfields : fieldsIn entry none [child] = [field] := by
      rw [fieldsIn, List.filterMap_cons, h]
      rfl
    rw [← hfields]
    exact fieldsIn_wellFormed hentry (List.forall_mem_singleton.2 hchild)
  | taken h => exact fieldsIn_wellFormed hentry fun n => (hchild.part (.tail _ (.head _))).part
  | skipped => exact List.forall_mem_nil _
  | @loop _ _ _ body _ _ passes =>
    intro field hfield
    obtain ⟨k, hk, hfield⟩ := List.mem_flatMap.1 hfield
    have hbody : ∀ n ∈ body, n.SpelledIn Token.Spellable :=
      fun n => (hchild.part (.tail _ (.head _))).part
    have hcopy := passes.unquoted hentry hbody (List.mem_range.1 hk)
    exact fieldsIn_wellFormed hcopy hbody field hfield

/-- Children of a form that can be spelled stand for well-formed fields. -/
theorem UnrollsAll.wellFormed {entry : Scopes} {body : List Node} {fields : List FormField}
    {n : Nat} (h : UnrollsAll entry body fields n) (hentry : entry.Unquoted)
    (hbody : ∀ n ∈ body, n.SpelledIn Token.Spellable) : ∀ field ∈ fields, field.WellFormed := by
  induction h with
  | nil => exact List.forall_mem_nil _
  | cons first _ ih =>
    rw [List.forall_mem_cons] at hbody
    exact List.forall_mem_append.2 ⟨first.wellFormed hentry hbody.1, ih hbody.2⟩

/-! ## Forms -/

/-- A form with a name and well-formed fields of different names. -/
structure FormDefinition.WellFormed (form : FormDefinition) : Prop where
  name : isName form.name = true
  distinct : (form.fields.map FormField.name).Nodup
  fields : ∀ field ∈ form.fields, field.WellFormed

/-- A store of well-formed forms is one with another well-formed form in it. -/
theorem FormStore.insert_wellFormed {s : FormStore} {form : FormDefinition}
    (hs : ∀ form ∈ s.forms, form.WellFormed) (hform : form.WellFormed) :
    ∀ f ∈ (s.insert form).2.forms, f.WellFormed := by
  intro f hf
  rcases Keyed.mem_put hf with rfl | hf
  · exact hform
  · exact hs f hf

/-! ## Runs -/

/-- A machine whose variables and output hold no quotes, with well-formed forms of different
names. -/
structure Machine.WellFormed (m : Machine) : Prop where
  scopes : m.scopes.Unquoted
  output : ∀ text ∈ m.output, Unquoted text
  distinct : (m.forms.forms.map FormDefinition.name).Nodup
  forms : ∀ form ∈ m.forms.forms, form.WellFormed

/-- The machine at the start of a run is well-formed. -/
theorem Machine.wellFormed_start (budget : Budget) (log : Log) : (start budget log).WellFormed where
  scopes := Scopes.unquoted_empty
  output := by simp [start]
  distinct := List.nodup_nil
  forms := nofun

namespace Run

open Node (HasRole)

variable {α β : Type}

/-- A computation that leaves a well-formed machine well-formed where it succeeds. -/
def KeepsWellFormed (x : Run α) : Prop :=
  ∀ ⦃a : α⦄ ⦃m m' : Machine⦄, m.WellFormed → x m = .ok a m' → m'.WellFormed

/-- Computations keep machines well-formed one behind the other. -/
theorem KeepsWellFormed.bind {x : Run α} {f : α → Run β} (hx : KeepsWellFormed x)
    (hf : ∀ a, KeepsWellFormed (f a)) : KeepsWellFormed (x >>= f) := by
  intro b m m' hm h
  obtain ⟨a, m₁, hrun, h⟩ := exists_of_bind_ok h
  exact hf a (hx hm hrun) h

/-- Quiet computations keep machines well-formed. -/
theorem Quiet.keepsWellFormed {x : Run α} (hx : Quiet x) : KeepsWellFormed x := by
  intro a m m' hm h
  obtain ⟨log, rfl⟩ := hx.ok h
  exact { hm with }

/-- A look outside keeps machines well-formed. -/
theorem checkBudget_keepsWellFormed (line : Nat) : KeepsWellFormed (checkBudget line) := by
  intro _ m m' hm h
  obtain ⟨budget, -, rfl⟩ := checkBudget_ok h
  exact { hm with }

/-- Counting a pass keeps machines well-formed. -/
theorem tick_keepsWellFormed (line : Nat) : KeepsWellFormed (tick line) := by
  intro _ m m' hm h
  obtain ⟨budget, -, rfl⟩ := tick_ok_eq h
  exact { hm with }

/-- Keeping machines well-formed is kept when computations are put together. -/
theorem keepsWellFormed_congruence : Congruence fun x _ => KeepsWellFormed x where
  pure a := (Quiet.pure a).keepsWellFormed
  throw h := by
    intro a m m' _ hrun
    cases hrun
  bind := KeepsWellFormed.bind

/-- A loop keeps machines well-formed if its condition and its passes do. -/
theorem whileHolds_keepsWellFormed {σ : Type} {line : Nat} {condition : Run Bool}
    {pass : Nat → σ → Run σ} (hcondition : KeepsWellFormed condition)
    (hpass : ∀ k state, KeepsWellFormed (pass k state)) (passes done : Nat) (state : σ) :
    KeepsWellFormed (whileHolds line condition pass passes done state) :=
  @Congruence.whileHolds _ keepsWellFormed_congruence σ line condition condition pass pass
    (tick_keepsWellFormed line) hcondition hpass passes done state

/-- Declaring a variable keeps machines well-formed. -/
theorem declare_keepsWellFormed (line : Nat) (name : String) (type : Ty) :
    KeepsWellFormed (declare line name type) := by
  intro _ m m' hm h
  obtain ⟨_, m₁, hget, h⟩ := exists_of_bind_ok h
  cases hget
  obtain ⟨scopes, m₂, hdeclare, hstore⟩ := exists_of_bind_ok h
  obtain ⟨hscopes, rfl⟩ := ofExcept_ok hdeclare
  cases hstore
  exact { hm with scopes := hm.scopes.declare (locate_ok hscopes) }

/-- Writing a value without quotes keeps machines well-formed. -/
theorem assign_keepsWellFormed (line : Nat) (name : String) {value : Value}
    (hvalue : value.Unquoted) : KeepsWellFormed (assign line name value) := by
  intro _ m m' hm h
  obtain ⟨scopes, hassign, rfl⟩ := assign_ok h
  exact { hm with scopes := hm.scopes.assign hvalue hassign }

/-- What is done with the value of an expression may rely on it that there is no quote in it. -/
theorem eval_bind_keepsWellFormed {n : Node} (hn : n.SpelledIn Token.Spellable) {f : Value → Run α}
    (hf : ∀ v, v.Unquoted → KeepsWellFormed (f v)) : KeepsWellFormed (eval n >>= f) := by
  intro a m m' hm h
  obtain ⟨v, m₁, heval, hrest⟩ := exists_of_bind_ok h
  obtain ⟨hvalue, rfl⟩ := ofExcept_ok (x := n.eval m.scopes) heval
  exact hf v (n.eval_unquoted hm.scopes hn hvalue) hm hrest

/-- Printing a text without quotes keeps machines well-formed. -/
theorem print_keepsWellFormed {text : String} (htext : Unquoted text) :
    KeepsWellFormed (print text) := by
  intro _ m m' hm h
  cases h
  refine { hm with output := fun t ht => ?_ }
  rcases Array.mem_push.1 ht with ht | rfl
  · exact hm.output t ht
  · exact htext

/-- Declaring a form whose words can be spelled keeps machines well-formed. -/
theorem declareForm_keepsWellFormed {passes line : Nat} {name : String} {body : List Node}
    (hbody : ∀ n ∈ body, HasRole .child n) (hname : isName name = true)
    (hwords : ∀ n ∈ body, n.SpelledIn Token.Spellable) :
    KeepsWellFormed (declareForm passes name body line) := by
  intro _ m m' hm h
  -- The form is the unrolling of its children in the scopes at its entry, which are still there.
  obtain ⟨fields, n, log, budget, hunrolls, hdistinct, -, rfl⟩ := declareForm_ok hbody h
  have hform : FormDefinition.WellFormed ⟨name, fields⟩ :=
    ⟨hname, hdistinct, hunrolls.wellFormed hm.scopes hwords⟩
  exact { hm with
    distinct := Keyed.nodup_put hm.distinct _
    forms := FormStore.insert_wellFormed hm.forms hform }

/-- The statements of a block keep machines well-formed if each of them does. -/
theorem execAll_keepsWellFormed {passes : Nat} {body : List Node}
    (h : ∀ n ∈ body, KeepsWellFormed (exec passes n)) : KeepsWellFormed (execAll passes body) := by
  induction body with
  | nil =>
    rw [execAll]
    exact (Quiet.pure ()).keepsWellFormed
  | cons n rest ih =>
    rw [List.forall_mem_cons] at h
    rw [execAll]
    exact (checkBudget_keepsWellFormed _).bind fun _ => h.1.bind fun _ => ih h.2

/-- Every statement of a program whose words can be spelled leaves a well-formed machine
well-formed. -/
theorem exec_keepsWellFormed (passes : Nat) {role : Node.Role} {n : Node} (h : HasRole role n)
    (hrole : role ≠ .child) (hn : n.SpelledIn Token.Spellable) :
    KeepsWellFormed (exec passes n) := by
  have hrecord : ∀ {n : Node} {x : Run Unit}, KeepsWellFormed x →
      KeepsWellFormed (record (.statementReached n.line n.describe) >>= fun _ => x) :=
    fun hx => (Quiet.record _).keepsWellFormed.bind fun _ => hx
  induction h with
  | block _ _ ih =>
    rw [exec]
    exact hrecord (execAll_keepsWellFormed fun n hmem => ih n hmem nofun (hn.part hmem))
  | field field =>
    cases field with
    | intro =>
      rw [exec]
      exact hrecord (Quiet.pure ()).keepsWellFormed
  | blank =>
    rw [exec]
    exact hrecord (Quiet.pure ()).keepsWellFormed
  | print =>
    rw [exec]
    exact hrecord (eval_bind_keepsWellFormed (hn.part (.head _)) fun v hv =>
      print_keepsWellFormed hv.display)
  | declare =>
    rw [exec]
    exact hrecord (declare_keepsWellFormed _ _ _)
  | declareInit =>
    rw [exec]
    refine hrecord (eval_bind_keepsWellFormed (hn.part (.head _)) fun v hv => ?_)
    split
    · exact (declare_keepsWellFormed _ _ _).bind fun _ => assign_keepsWellFormed _ _ hv
    · exact (Quiet.fail _ _).keepsWellFormed
  | assign =>
    rw [exec]
    refine hrecord (eval_bind_keepsWellFormed (hn.part (.tail _ (.head _))) fun v hv => ?_)
    exact assign_keepsWellFormed _ _ hv
  | loop _ _ _ ih =>
    rw [exec]
    have hbody := ih nofun (hn.part (.tail _ (.head _)))
    refine hrecord (KeepsWellFormed.bind ?_ fun _ => (Quiet.pure ()).keepsWellFormed)
    exact whileHolds_keepsWellFormed (holds_quiet _ _).keepsWellFormed (fun _ _ => hbody) _ _ _
  | branch _ _ _ ih =>
    rw [exec]
    refine hrecord ((holds_quiet _ _).keepsWellFormed.bind fun b => ?_)
    split
    · exact ih nofun (hn.part (.tail _ (.head _)))
    · exact (Quiet.pure ()).keepsWellFormed
  | branchElse _ _ _ _ ih ih' =>
    rw [exec]
    refine hrecord ((holds_quiet _ _).keepsWellFormed.bind fun b => ?_)
    split
    · exact ih nofun (hn.part (.tail _ (.head _)))
    · exact ih' nofun (hn.part (.tail _ (.tail _ (.head _))))
  | form _ name children =>
    rw [exec]
    have hname := (hn.words (.identifier name) (.head _)).1
    exact hrecord (declareForm_keepsWellFormed children hname fun n => hn.part)
  | childField | childBlock => exact absurd rfl hrole

end Run

/-- A compilation with well-formed forms of different names, printed lines without quotes and the
component of each form, in order. -/
structure Compilation.WellFormed (c : Compilation) : Prop where
  distinct : (c.forms.map FormDefinition.name).Nodup
  forms : ∀ form ∈ c.forms, form.WellFormed
  output : ∀ text ∈ c.output, Unquoted text
  generated : c.generated = c.forms.map Component.ofForm

/-- Every compilation that succeeds is well-formed. -/
theorem compileWith_wellFormed {options : Options} {outside : Outside} {source : String}
    {c : Compilation} (h : compileWith options outside source = .ok c) : c.WellFormed := by
  cases hparse : parse source with
  | error e =>
    rw [compileWith_of_parse_error hparse] at h
    cases h
  | ok root =>
    rw [compileWith_of_parse hparse] at h
    have hkeeps : Run.KeepsWellFormed (Run.statement root) := by
      intro _ m m' hm hrun
      have hroot := Grammar.hasRole_of_parse hparse
      exact Run.exec_keepsWellFormed _ hroot nofun (Grammar.spellable_of_parse hparse) hm hrun
    cases hrun : Run.statement root (.start (.ofOptions options outside) .off) with
    | error e m =>
      rw [hrun] at h
      cases e <;> cases h
    | ok u m =>
      rw [hrun] at h
      cases h
      have hm := hkeeps (Machine.wellFormed_start _ _) hrun
      exact ⟨hm.distinct, hm.forms, fun text ht => hm.output text (Array.mem_toList_iff.1 ht), rfl⟩

/-- A program with a field that has a label and two options, of which one is empty and the other one
is held by a variable. -/
def Sample.selection : String :=
  "\x7b\nvar b string=\"p\"\nvar g bool=true\nform f\x7bfor g\x7b\ng=false\n" ++
    "select_field a\x7blabel:\"q\",options:[\"\",b]\x7d\x7d\x7d\nPrintln(b+b)\n\x7d"

/-- A program that sets a label, drops an empty option and prints a text twice in a line. -/
theorem compileWith_wellFormed_selection :
    ∃ c, compileWith .unbounded .still Sample.selection = .ok c ∧
    c.forms = [⟨"f", [⟨.select, "a_1", ⟨"q", false, "", ["p"]⟩⟩]⟩] ∧ c.output = ["pp"] ∧
    c.WellFormed := by
  have hrun : (compileWith .unbounded .still Sample.selection).toOption.map
      (fun c => (c.forms, c.output)) =
        some ([⟨"f", [⟨.select, "a_1", ⟨"q", false, "", ["p"]⟩⟩]⟩], ["pp"]) := by
    decide +kernel
  cases h : compileWith .unbounded .still Sample.selection with
  | error e =>
    rw [h] at hrun
    cases hrun
  | ok c =>
    rw [h] at hrun
    obtain ⟨hforms, houtput⟩ := Prod.mk.inj (Option.some.inj hrun)
    exact ⟨c, rfl, hforms, houtput, compileWith_wellFormed h⟩

end FormScript
