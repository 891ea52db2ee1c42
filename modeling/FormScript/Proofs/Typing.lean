import FormScript.Proofs.Writing

/-!
# Declared types

A variable keeps the type it was declared with. `Scopes.Typed` says that all frames that bind a name
agree on its type and that every value has the type of its variable, and `Frame.Keeps` that no
variable of a frame is lost, gets another type or loses its value. A declaration and a write, also
one that fails, put a frame on top that keeps what was there (`Scopes.exists_keeps_of_declare`,
`Scopes.exists_keeps_of_assign`) and leave typed scopes typed. So does every run, of whatever tree,
and every mix of runs and requests (`Act.perform_types`).
-/

namespace FormScript

namespace Frame

/-- No variable is lost, gets another type or loses its value. -/
def Keeps (f g : Frame) : Prop :=
  ∀ name v, f.get? name = some v →
    ∃ w, g.get? name = some w ∧ w.type = v.type ∧ (v.value.isSome → w.value.isSome)

section
variable {f g h : Frame} {name : String}

/-- A frame keeps itself. -/
theorem Keeps.refl (f : Frame) : f.Keeps f :=
  fun _ v hv => ⟨v, hv, rfl, id⟩

/-- What is kept twice is kept. -/
theorem Keeps.trans (hfg : f.Keeps g) (hgh : g.Keeps h) : f.Keeps h := by
  intro name v hv
  obtain ⟨w, hw, htype, hvalue⟩ := hfg name v hv
  obtain ⟨x, hx, htype', hvalue'⟩ := hgh name w hw
  exact ⟨x, hx, htype'.trans htype, hvalue' ∘ hvalue⟩

/-- A frame keeps its variables if the one that is put into it is new or has the type of the one
before and no less of a value. -/
theorem keeps_insert {v : Variable}
    (hv : ∀ d, f.get? name = some d → v.type = d.type ∧ (d.value.isSome → v.value.isSome)) :
    f.Keeps (f.insert name v) := by
  intro other d hd
  rw [get?_insert]
  split
  next heq =>
    subst heq
    exact ⟨v, rfl, hv d hd⟩
  next => exact ⟨d, hd, rfl, id⟩

/-- Shadowing a name keeps all variables of the frame. -/
theorem keeps_shadow (f : Frame) (name : String) (type : Ty) : f.Keeps (f.shadow name type) := by
  cases hname : f.get? name with
  | some d =>
    rw [shadow_of_some hname]
    exact .refl f
  | none =>
    rw [shadow_of_none hname]
    exact keeps_insert fun d hd => by cases hname.symm.trans hd

end

end Frame

namespace Scopes

section
variable {s s' : Scopes} {name : String} {type : Ty}

/-- A declaration keeps the variables of the topmost frame. -/
theorem exists_keeps_of_declare (h : s.declare name type = .ok s') :
    ∃ f, s' = s.withTop f ∧ s.top.Keeps f := by
  obtain ⟨hname, rfl⟩ := declare_ok h
  refine ⟨_, rfl, Frame.keeps_insert fun d hd => ?_⟩
  cases (top_get?_eq_none hname).symm.trans hd

/-- A write keeps the variables of the topmost frame, whether it fails or not. -/
theorem exists_keeps_of_assign (s : Scopes) (name : String) (value : Value) :
    ∃ f, (s.assign name value).2 = s.withTop f ∧ s.top.Keeps f := by
  rcases s.assign_cases name value with ⟨-, h⟩ | ⟨d, hd, ⟨-, h⟩ | ⟨htype, h⟩⟩
  · exact ⟨s.top, by rw [h, withTop_top], .refl _⟩
  · exact ⟨_, by rw [h], s.top.keeps_shadow name d.type⟩
  · refine ⟨_, by rw [h], (s.top.keeps_shadow name d.type).trans (Frame.keeps_insert ?_)⟩
    intro d' hd'
    obtain ⟨d'', hd'', htype'⟩ := exists_get?_shadow hd
    cases hd''.symm.trans hd'
    exact ⟨htype.symm.trans htype'.symm, fun _ => rfl⟩

end

/-! ## Typed scopes -/

/-- All frames that bind a name give it the same type, and every value has the type of its
variable. -/
structure Typed (s : Scopes) : Prop where
  agree : ∀ f ∈ s.frames, ∀ g ∈ s.frames, ∀ name v w,
    f.get? name = some v → g.get? name = some w → v.type = w.type
  stored : ∀ f ∈ s.frames, ∀ name v value,
    f.get? name = some v → v.value = some value → value.type = v.type

namespace Typed

variable {s s' : Scopes} {name : String} {type : Ty}

/-- A program without variables is typed. -/
theorem empty : Typed .empty where
  agree := by simp [frames, Scopes.empty, Frame.empty, Frame.get?, Keyed.find?]
  stored := by simp [frames, Scopes.empty, Frame.empty, Frame.get?, Keyed.find?]

/-- The type of a visible variable is that which every frame gives to its name. -/
theorem type_eq {f : Frame} {v w : Variable} (h : s.Typed) (hf : f ∈ s.frames)
    (hv : f.get? name = some v) (hw : s.get? name = some w) : v.type = w.type := by
  obtain ⟨g, hg, w', hgw, hw'⟩ := exists_get?_of_mem hf hv
  cases hw'.symm.trans hw
  exact h.agree f hf g hg name v w hv hgw

/-- A new frame leaves scopes typed. -/
theorem push (h : s.Typed) : s.push.Typed := by
  have hempty : ∀ name v, Frame.empty.get? name ≠ some v := nofun
  constructor
  · rw [frames_push]
    rintro f (- | ⟨_, hf⟩) g (- | ⟨_, hg⟩) name v w hv hw
    · cases hempty name v hv
    · cases hempty name v hv
    · cases hempty name w hw
    · exact h.agree f hf g hg name v w hv hw
  · rw [frames_push]
    rintro f (- | ⟨_, hf⟩) name v value hv
    · cases hempty name v hv
    · exact h.stored f hf name v value hv

/-- Dropping the topmost frame leaves scopes typed. -/
theorem pop (h : s.Typed) : s.pop.Typed where
  agree f hf g hg := h.agree f (mem_frames_pop hf) g (mem_frames_pop hg)
  stored f hf := h.stored f (mem_frames_pop hf)

/-- Scopes stay typed when a variable is put into the topmost frame, if the variable has the type
under which its name is visible. -/
theorem insert {v : Variable} (h : s.Typed) (htype : ∀ d, s.get? name = some d → v.type = d.type)
    (hvalue : ∀ value, v.value = some value → value.type = v.type) :
    (s.withTop (s.top.insert name v)).Typed := by
  -- The new frame agrees with all frames that were there, and with itself.
  have hnew : ∀ g ∈ s.frames, ∀ other w x, (s.top.insert name v).get? other = some w →
      g.get? other = some x → w.type = x.type := by
    intro g hg other w x hw hx
    obtain ⟨g', hg', d, hd, hvisible⟩ := exists_get?_of_mem hg hx
    rw [Frame.get?_insert] at hw
    split at hw
    next heq =>
      subst heq
      cases hw
      exact (htype d hvisible).trans (h.type_eq hg hx hvisible).symm
    next => exact h.agree s.top s.top_mem_frames g hg other w x hw hx
  constructor
  · intro f hf g hg other w x hw hx
    rcases mem_frames_withTop hf with rfl | hf <;> rcases mem_frames_withTop hg with rfl | hg
    · cases hw.symm.trans hx
      rfl
    · exact hnew g hg other w x hw hx
    · exact (hnew f hf other x w hx hw).symm
    · exact h.agree f hf g hg other w x hw hx
  · intro f hf other w value hw
    rcases mem_frames_withTop hf with rfl | hf
    · rw [Frame.get?_insert] at hw
      split at hw
      · cases hw
        exact hvalue value
      · exact h.stored s.top s.top_mem_frames other w value hw
    · exact h.stored f hf other w value hw

/-- A new variable leaves scopes typed. -/
theorem declare (h : s.Typed) (hdeclare : s.declare name type = .ok s') : s'.Typed := by
  obtain ⟨hname, rfl⟩ := declare_ok hdeclare
  refine h.insert (fun d hd => ?_) nofun
  cases hname.symm.trans hd

/-- Scopes are typed also where a write was begun. -/
theorem shadow {d : Variable} (h : s.Typed) (hd : s.get? name = some d) :
    (s.withTop (s.top.shadow name d.type)).Typed := by
  cases htop : s.top.get? name with
  | some d' =>
    rw [Frame.shadow_of_some htop, withTop_top]
    exact h
  | none =>
    rw [Frame.shadow_of_none htop]
    refine h.insert (fun d' hd' => ?_) nofun
    cases hd.symm.trans hd'
    rfl

/-- Writing a variable leaves scopes typed, also where it fails. -/
theorem assign (h : s.Typed) (name : String) (value : Value) : (s.assign name value).2.Typed := by
  rcases s.assign_cases name value with ⟨-, heq⟩ | ⟨d, hd, ⟨-, heq⟩ | ⟨htype, heq⟩⟩
  · rw [heq]
    exact h
  · rw [heq]
    exact h.shadow hd
  · -- The value is put into the frame where the write was begun.
    have hvisible : ∀ d', (s.withTop (s.top.shadow name d.type)).get? name = some d' →
        value.type = d'.type := by
      intro d' hd'
      obtain ⟨d'', hd'', htype''⟩ := exists_get?_shadow hd
      have hvisible : (s.withTop (s.top.shadow name d.type)).get? name = some d'' :=
        get?_of_top (by rw [top_withTop]; exact hd'')
      cases hvisible.symm.trans hd'
      exact htype.symm.trans htype''.symm
    have hstored : ∀ x, some value = some x → x.type = value.type := by
      rintro x ⟨⟩
      rfl
    have hwritten := (h.shadow hd).insert (v := ⟨value.type, some value⟩) hvisible hstored
    rw [top_withTop, withTop_withTop] at hwritten
    rw [heq]
    exact hwritten

end Typed

end Scopes

/-! ## Runs and requests -/

/-- The scopes stay typed if they were, and the program's variables are kept. -/
structure Machine.KeepsTypes (m m' : Machine) : Prop where
  typed : m.scopes.Typed → m'.scopes.Typed
  program : m.scopes.program.Keeps m'.scopes.program

namespace Machine.KeepsTypes

variable {m m' : Machine}

/-- Types are kept where the scopes are the same. -/
theorem of_scopes_eq (h : m'.scopes = m.scopes) : KeepsTypes m m' where
  typed := by rw [h]; exact id
  program := by rw [h]; exact .refl _

/-- The topmost frame is the program's, or the program's frame is not touched. -/
theorem of_top {f : Frame} (h : m'.scopes = m.scopes.withTop f) (hf : m.scopes.top.Keeps f)
    (htyped : m.scopes.Typed → m'.scopes.Typed) : KeepsTypes m m' where
  typed := htyped
  program := by
    rw [h]
    generalize m.scopes = s at hf
    obtain ⟨program, overlays⟩ := s
    cases overlays with
    | nil => exact hf
    | cons top below => exact .refl program

/-- Declaring a variable keeps types. -/
theorem declare {name : String} {type : Ty} {scopes : Scopes}
    (h : m.scopes.declare name type = .ok scopes) : KeepsTypes m { m with scopes } := by
  obtain ⟨f, hscopes, hf⟩ := Scopes.exists_keeps_of_declare h
  exact of_top hscopes hf fun htyped => htyped.declare h

/-- Writing a variable keeps types, also where it fails. -/
theorem assign (m : Machine) (name : String) (value : Value) :
    KeepsTypes m { m with scopes := (m.scopes.assign name value).2 } := by
  obtain ⟨f, hscopes, hf⟩ := m.scopes.exists_keeps_of_assign name value
  exact of_top hscopes hf fun htyped => htyped.assign name value

/-- A new frame keeps types. -/
theorem push (m : Machine) : KeepsTypes m { m with scopes := m.scopes.push } :=
  ⟨.push, .refl _⟩

/-- Dropping the topmost frame keeps types. -/
theorem pop (m : Machine) : KeepsTypes m { m with scopes := m.scopes.pop } :=
  ⟨.pop, .refl _⟩

/-- Types that are kept twice are kept. -/
theorem trans {m₁ m₂ m₃ : Machine} (h : KeepsTypes m₁ m₂) (h' : KeepsTypes m₂ m₃) :
    KeepsTypes m₁ m₃ :=
  ⟨h'.typed ∘ h.typed, h.program.trans h'.program⟩

/-- Every step of a run keeps types. -/
theorem stepRelation : StepRelation KeepsTypes where
  refl _ := of_scopes_eq rfl
  trans := trans
  record _ _ := of_scopes_eq rfl
  look _ := of_scopes_eq rfl
  count _ := of_scopes_eq rfl
  declare := declare
  assign := assign
  print _ _ := of_scopes_eq rfl
  register _ _ := of_scopes_eq rfl
  isolated {m m'} h := ((push m).trans h).trans (pop m')

end Machine.KeepsTypes

open Machine (KeepsTypes)

/-- Something that is done with a machine: a statement is run, within a bound on the passes of each
loop, or a request is made of its scopes. -/
inductive Act where
  | statement (passes : Nat) (n : Node)
  | request (r : Request)

/-- The machine behind an act, whether the act fails or not. -/
def Act.perform (m : Machine) : Act → Machine
  | .statement passes n => Ending.machine (Run.exec passes n m)
  | .request r => { m with scopes := (Scopes.store.serve m.scopes r).2 }

/-- Every act keeps types, whether it fails or not. -/
theorem Act.keepsTypes (act : Act) (m : Machine) : KeepsTypes m (act.perform m) := by
  cases act with
  | statement passes n =>
    rw [perform, ← Plan.statement_run]
    exact (Plan.statement n).run_within KeepsTypes.stepRelation passes m
  | request r =>
    cases r with
    | declare line name type =>
      have hdeclare : ∀ scopes, m.scopes.declare name type = .ok scopes →
        KeepsTypes m { m with scopes } :=
        fun _ => KeepsTypes.declare
      simp only [perform, VariableStore.serve, Scopes.store]
      cases h : m.scopes.declare name type with
      | ok scopes => exact hdeclare scopes h
      | error fault => exact .of_scopes_eq rfl
    | get | value => exact .of_scopes_eq rfl
    | assign line name value => exact .assign m name value
    | push => exact .push m
    | pop => exact .pop m

/-- Acts one after the other keep types. -/
theorem keepsTypes_foldl (acts : List Act) (m : Machine) :
    KeepsTypes m (acts.foldl Act.perform m) := by
  induction acts generalizing m with
  | nil => exact .of_scopes_eq rfl
  | cons act acts ih => exact (act.keepsTypes m).trans (ih _)

/-- Declared types hold in whatever is done with a new machine, also where it fails: there is a
frame, all frames agree on the type of a name, and every value has the type of its variable. From
then on no variable of the program's frame is lost, gets another type or loses its value. -/
theorem Act.perform_types (options : Options) (outside : Outside) (log : Log)
    (acts more : List Act) :
    let m := acts.foldl Act.perform (.start (.ofOptions options outside) log)
    1 ≤ m.scopes.depth ∧ m.scopes.Typed ∧
      m.scopes.program.Keeps (more.foldl Act.perform m).scopes.program :=
  ⟨Nat.le_add_left 1 _, (keepsTypes_foldl acts _).typed .empty, (keepsTypes_foldl more _).program⟩

end FormScript
