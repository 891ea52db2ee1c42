import FormScript.Evaluation.Field
import FormScript.Proofs.Isolation

/-!
# What declarations and writes do

`Scopes.declare_ok` and `Scopes.assign_cases` say all that a declaration and a write can do to the
frames. What a program sees of them is the variable under each name: `Scopes.Alike` says that two
scopes show the same ones. Expressions and options have the same values in scopes that are alike,
and the same write succeeds in both or fails in both, and leaves them alike if it succeeds
(`Alike.assign`).
-/

namespace FormScript

namespace Frame

/-- The frame in which a name is bound, if need be to a variable without a value. -/
def shadow (f : Frame) (name : String) (type : Ty) : Frame :=
  if f.contains name then f else f.insert name ⟨type, none⟩

section
variable {f : Frame} {name : String}

/-- A frame without a variable for a name does not bind it. -/
theorem contains_eq_false (hname : f.get? name = none) : f.contains name = false := by
  rw [contains, hname, Option.isSome_none]

/-- A name that is bound need not be shadowed. -/
theorem shadow_of_some {d : Variable} (hd : f.get? name = some d) (type : Ty) :
    f.shadow name type = f := by
  rw [shadow, contains, hd, Option.isSome_some, if_pos rfl]

/-- A name that is not bound is shadowed by a variable without a value. -/
theorem shadow_of_none (hname : f.get? name = none) (type : Ty) :
    f.shadow name type = f.insert name ⟨type, none⟩ := by
  rw [shadow, contains_eq_false hname, if_neg Bool.false_ne_true]

end

end Frame

namespace Scopes

/-! ## Frames -/

/-- All frames, the topmost first. -/
def frames (s : Scopes) : List Frame :=
  s.overlays ++ [s.program]

/-- A new frame is the topmost one. -/
theorem frames_push (s : Scopes) : s.push.frames = .empty :: s.frames :=
  rfl

/-- The topmost frame is one of the frames. -/
theorem top_mem_frames (s : Scopes) : s.top ∈ s.frames := by
  obtain ⟨program, overlays⟩ := s
  cases overlays <;> simp [top, frames]

/-- Of the frames behind a change of the topmost one, all others were there before. -/
theorem mem_frames_withTop {s : Scopes} {f g : Frame} (h : g ∈ (s.withTop f).frames) :
    g = f ∨ g ∈ s.frames := by
  obtain ⟨program, overlays⟩ := s
  cases overlays with
  | nil => exact .inl (by simpa [withTop, frames] using h)
  | cons top below =>
    simp only [withTop, frames, List.cons_append, List.mem_cons] at h ⊢
    exact h.imp_right .inr

/-- The frames below the topmost one are frames. -/
theorem mem_frames_pop {s : Scopes} {f : Frame} (h : f ∈ s.pop.frames) : f ∈ s.frames := by
  obtain ⟨program, overlays⟩ := s
  rcases List.mem_append.1 h with h | h
  · exact List.mem_append_left _ (List.mem_of_mem_tail h)
  · exact List.mem_append_right _ h

/-- A name that some frame binds is visible. -/
theorem exists_get?_of_mem {s : Scopes} {f : Frame} {name : String} {v : Variable}
    (hf : f ∈ s.frames) (hv : f.get? name = some v) :
    ∃ g ∈ s.frames, ∃ w, g.get? name = some w ∧ s.get? name = some w := by
  cases hname : s.get? name with
  | none => cases (List.findSome?_eq_none_iff.1 hname f hf).symm.trans hv
  | some w =>
    obtain ⟨g, hg, hw⟩ := List.exists_of_findSome?_eq_some hname
    exact ⟨g, hg, w, hw, rfl⟩

/-! ## Inversion -/

section
variable {s s' : Scopes} {name : String} {type : Ty}

/-- A name that is not visible is not bound in the topmost frame. -/
theorem top_get?_eq_none (h : s.get? name = none) : s.top.get? name = none := by
  cases htop : s.top.get? name with
  | none => rfl
  | some v => cases h.symm.trans (get?_of_top htop)

/-- A visible name cannot be declared. -/
theorem declare_of_some {d : Variable} (hd : s.get? name = some d) (type : Ty) :
    s.declare name type = .error (.alreadyDeclared name) := by
  rw [declare, hd, Option.isSome_some, if_pos rfl]

/-- A name that is not visible is declared in the topmost frame, without a value. -/
theorem declare_of_none (hname : s.get? name = none) (type : Ty) :
    s.declare name type = .ok (s.withTop (s.top.insert name ⟨type, none⟩)) := by
  rw [declare, hname, Option.isSome_none, if_neg Bool.false_ne_true, Frame.declare,
    Frame.contains_eq_false (top_get?_eq_none hname), if_neg Bool.false_ne_true]
  rfl

/-- A declaration is of a name that was not visible, and binds it in the topmost frame. -/
theorem declare_ok (h : s.declare name type = .ok s') :
    s.get? name = none ∧ s' = s.withTop (s.top.insert name ⟨type, none⟩) := by
  cases hname : s.get? name with
  | some v => cases (declare_of_some hname type).symm.trans h
  | none =>
    cases (declare_of_none hname type).symm.trans h
    exact ⟨rfl, rfl⟩

/-- The topmost frame, where a visible name was bound for a write, has a variable of its declared
type. -/
theorem exists_get?_shadow {d : Variable} (hd : s.get? name = some d) :
    ∃ d', (s.top.shadow name d.type).get? name = some d' ∧ d'.type = d.type := by
  cases htop : s.top.get? name with
  | some d' =>
    rw [Frame.shadow_of_some htop]
    cases (get?_of_top htop).symm.trans hd
    exact ⟨d, htop, rfl⟩
  | none =>
    rw [Frame.shadow_of_none htop, Frame.get?_insert, if_pos rfl]
    exact ⟨⟨d.type, none⟩, rfl, rfl⟩

/-- What a write does: it fails where the name is not visible; else it binds the name in the topmost
frame and then stores the value there, if it is of the declared type. -/
theorem assign_cases (s : Scopes) (name : String) (value : Value) :
    (s.get? name = none ∧ s.assign name value = (.error (.undeclared name), s)) ∨
    ∃ d, s.get? name = some d ∧
      ((d.type ≠ value.type ∧ s.assign name value =
        (.error (.storeMismatch name d.type value.type), s.withTop (s.top.shadow name d.type))) ∨
      (d.type = value.type ∧ s.assign name value =
        (.ok (),
          s.withTop ((s.top.shadow name d.type).insert name ⟨value.type, some value⟩)))) := by
  cases hname : s.get? name with
  | none =>
    left
    refine ⟨rfl, ?_⟩
    rw [assign, get, hname]
  | some d =>
    right
    obtain ⟨d', hd', htype⟩ := exists_get?_shadow hname
    have hset : (s.top.shadow name d.type).set name ⟨value.type, some value⟩ =
        if d.type = value.type then
          .ok ((s.top.shadow name d.type).insert name ⟨value.type, some value⟩)
        else .error (.storeMismatch name d.type value.type) := by
      rw [Frame.set, Frame.get, hd', ← htype]
      rfl
    refine ⟨d, rfl, ?_⟩
    rw [assign, get, hname]
    by_cases hvalue : d.type = value.type
    · right
      rw [if_pos hvalue, Frame.shadow] at hset
      exact ⟨hvalue, by simp only [Frame.shadow, hset]⟩
    · left
      rw [if_neg hvalue, Frame.shadow] at hset
      exact ⟨hvalue, by simp only [Frame.shadow, hset]⟩

/-! ## What is visible -/

/-- What is visible behind a write: the written variable, and all others as before. -/
theorem get?_withTop_shadow_insert (s : Scopes) (name : String) (type : Ty) (v : Variable)
    (other : String) :
    (s.withTop ((s.top.shadow name type).insert name v)).get? other =
      if name = other then some v else s.get? other := by
  cases htop : s.top.get? name with
  | some d =>
    rw [Frame.shadow_of_some htop]
    exact s.get?_withTop_insert name v other
  | none =>
    rw [Frame.shadow_of_none htop]
    -- The name is bound twice, and the second binding covers the first.
    have hover := (s.withTop (s.top.insert name ⟨type, none⟩)).get?_withTop_insert name v other
    rw [top_withTop, withTop_withTop] at hover
    rw [hover, get?_withTop_insert]
    split <;> rfl

/-- Where writing succeeds, the name has a variable of the value's type, and it alone changes. -/
theorem assign_ok {value : Value} (h : s.assign name value = (.ok (), s')) :
    (∃ d, s.get? name = some d ∧ d.type = value.type) ∧
      ∀ other, s'.get? other =
        if name = other then some ⟨value.type, some value⟩ else s.get? other := by
  rcases s.assign_cases name value with ⟨-, heq⟩ | ⟨d, hd, ⟨-, heq⟩ | ⟨htype, heq⟩⟩
  · cases heq.symm.trans h
  · cases heq.symm.trans h
  · cases heq.symm.trans h
    exact ⟨⟨d, hd, htype⟩, s.get?_withTop_shadow_insert name d.type _⟩

/-- A value of its own type can be written to a visible variable. -/
theorem exists_assign_ok {value : Value} {d : Variable} (hd : s.get? name = some d)
    (htype : d.type = value.type) : ∃ s', s.assign name value = (.ok (), s') := by
  rcases s.assign_cases name value with ⟨hnone, -⟩ | ⟨d', hd', ⟨hne, -⟩ | ⟨-, heq⟩⟩
  · cases hnone.symm.trans hd
  · cases hd'.symm.trans hd
    exact absurd htype hne
  · exact ⟨_, heq⟩

end

/-- Two scopes show the same variables. -/
def Alike (s t : Scopes) : Prop :=
  ∀ name, s.get? name = t.get? name

namespace Alike

variable {s t s' : Scopes} {name : String}

/-- Scopes that show the same variables show the same values. -/
theorem value_eq (h : s.Alike t) (name : String) : s.value name = t.value name := by
  rw [value, value, get, get, h name]

/-- A write that succeeds in one of two scopes succeeds in the other one, and leaves them alike. -/
theorem assign {value : Value} (h : s.Alike t) (hs : s.assign name value = (.ok (), s')) :
    ∃ t', t.assign name value = (.ok (), t') ∧ s'.Alike t' := by
  obtain ⟨⟨d, hd, htype⟩, hs'⟩ := assign_ok hs
  obtain ⟨t', ht⟩ := exists_assign_ok ((h name).symm.trans hd) htype
  refine ⟨t', ht, fun other => ?_⟩
  rw [hs', (assign_ok ht).2, h]

end Alike

end Scopes

/-- Scopes that are alike give every expression the same value. -/
theorem Node.eval_alike {s t : Scopes} (h : s.Alike t) (n : Node) : n.eval s = n.eval t := by
  match n with
  | .ident o name => rw [eval, eval, h.value_eq]
  | .unary o op operand => rw [eval, eval, operand.eval_alike h]
  | .binary o op left right => rw [eval, eval, left.eval_alike h, right.eval_alike h]
  | .int _ _ | .str _ _ | .bool _ _ | .scan _ | .block _ _ | .assign _ _ _ | .declare _ _ _ _
  | .branch _ _ _ _ | .loop _ _ _ | .print _ _ | .field _ _ _ _ | .scalar _ _ _ | .array _ _ _
  | .form _ _ _ | .blank _ => rfl

end FormScript
