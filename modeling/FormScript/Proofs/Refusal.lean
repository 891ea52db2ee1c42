import FormScript.Proofs.Writing

/-!
# Refused writes

A declaration or a write that is refused should leave the variables as they were. A refused
declaration does, and so does a write to a name that is bound in the topmost frame, or not at all,
or has no value yet. A write to a name whose value is in a frame below does not
(`refused_write_unnoticed_iff`): the name is bound in the topmost frame before the types are
compared, to a variable without a value, and this hides the value until the frame is dropped. In all
other cases no requests tell the scopes before and behind the refusal apart: `Scopes.Indistinct`
says that at each level the same variables are visible and the same names are bound, save those
without a value, and every request keeps to it.
-/

namespace FormScript

/-- A write to a name that has a value and is not bound in the topmost frame. -/
def Request.ReachesBelow (s : Scopes) : Request → Prop
  | .assign _ name _ => s.top.get? name = none ∧ ∃ v, s.value name = .ok v
  | _ => False

/-- The answers to requests. -/
def VariableStore.transcript {σ : Type} (store : VariableStore σ) :
    List Request → σ → List (Except RuntimeError Answer)
  | [], _ => []
  | request :: requests, s =>
    (store.serve s request).1 :: store.transcript requests (store.serve s request).2

namespace Frame

/-- A frame that does not bind a name has no variable for it. -/
theorem contains_eq_false_iff {f : Frame} {name : String} :
    f.contains name = false ↔ f.get? name = none := by
  simp [contains]

/-- A frame with another variable binds its name besides those that it bound. -/
theorem contains_insert (f : Frame) (name : String) (v : Variable) (other : String) :
    (f.insert name v).contains other = (decide (name = other) || f.contains other) := by
  rw [contains, get?_insert]
  by_cases hname : name = other <;> simp [hname, contains]

/-- A frame that shadows a name binds it besides those that it bound. -/
theorem contains_shadow (f : Frame) (name : String) (type : Ty) (other : String) :
    (f.shadow name type).contains other = (decide (name = other) || f.contains other) := by
  rw [shadow]
  split
  · by_cases hname : name = other <;> simp_all
  · exact f.contains_insert name _ other

end Frame

namespace Scopes

variable {s t : Scopes} {name : String}

/-- What is read is what is visible. -/
theorem reads_eq (h : s.get? name = t.get? name) :
    s.get name = t.get name ∧ s.value name = t.value name := by
  rw [get, get, value, value, get, get, h]
  exact ⟨rfl, rfl⟩

/-- A name that is visible, but not bound in the topmost frame, is bound in a frame that stays when
the topmost one is dropped. -/
theorem pop_withTop (htop : s.top.get? name = none) {d : Variable}
    (hd : s.get? name = some d) (f : Frame) : (s.withTop f).pop = s.pop := by
  obtain ⟨program, overlays⟩ := s
  cases overlays with
  | nil =>
    have hnone : (Scopes.mk program []).get? name = none := by simpa [get?, top] using htop
    cases hnone.symm.trans hd
  | cons top below => rfl

/-- The value of a name is that of its variable, if this has one. -/
theorem value_of_get? {d : Variable} (hd : s.get? name = some d) :
    s.value name = d.value.elim (.error (.uninitialized name)) .ok := by
  rw [value, get, hd]
  cases hvalue : d.value <;> simp [bind, Except.bind, hvalue]

/-- A name without a variable has no value. -/
theorem value_of_none (hname : s.get? name = none) : s.value name = .error (.undeclared name) := by
  rw [value, get, hname]
  rfl

/-- The variables that are visible where a name is bound in the topmost frame if need be. -/
theorem get?_withTop_shadow (s : Scopes) (name : String) (type : Ty) (other : String) :
    (s.withTop (s.top.shadow name type)).get? other =
      if name = other ∧ s.top.get? name = none then some ⟨type, none⟩ else s.get? other := by
  cases htop : s.top.get? name with
  | some d => simp [Frame.shadow_of_some htop]
  | none => simp [Frame.shadow_of_none htop, get?_withTop_insert]

/-! ## Scopes that cannot be told apart -/

/-- The same variables are visible, and the topmost frames bind the same names, those without a
value apart. -/
def Akin (s t : Scopes) : Prop :=
  s.Alike t ∧ ∀ name, (∃ type, s.get? name = some ⟨type, none⟩) ∨
    s.top.contains name = t.top.contains name

/-- At each level scopes are akin. -/
inductive Indistinct : Scopes → Scopes → Prop where
  | program {program program' : Frame} (akin : Akin ⟨program, []⟩ ⟨program', []⟩) :
    Indistinct ⟨program, []⟩ ⟨program', []⟩
  | overlay {program program' frame frame' : Frame} {frames frames' : List Frame}
      (below : Indistinct ⟨program, frames⟩ ⟨program', frames'⟩)
      (akin : Akin ⟨program, frame :: frames⟩ ⟨program', frame' :: frames'⟩) :
    Indistinct ⟨program, frame :: frames⟩ ⟨program', frame' :: frames'⟩

/-- Scopes are akin to themselves. -/
theorem Akin.refl (s : Scopes) : s.Akin s :=
  ⟨fun _ => rfl, fun _ => .inr rfl⟩

/-- Both topmost frames bind a name, to the variable that they show if they show one. -/
theorem Akin.shadow {type : Ty} (h : s.Akin t) (htype : ∀ d, s.get? name = some d → d.type = type) :
    (s.withTop (s.top.shadow name type)).Akin (t.withTop (t.top.shadow name type)) := by
  refine ⟨fun other => ?_, fun other => ?_⟩
  · rw [get?_withTop_shadow, get?_withTop_shadow, h.1 other]
    rcases h.2 name with ⟨type', hs⟩ | hbound
    · -- One of the frames may bind the name and the other one not, but there is no value to hide.
      obtain rfl : type' = type := htype _ hs
      have ht : t.get? name = some ⟨type', none⟩ := (h.1 name).symm.trans hs
      by_cases hother : name = other
      · rw [← hother, ht, ite_self, ite_self]
      · simp only [hother, false_and, if_false]
    · simp only [← Frame.contains_eq_false_iff, hbound]
  · rw [top_withTop, top_withTop, Frame.contains_shadow, Frame.contains_shadow]
    by_cases hother : name = other
    · exact .inr (by simp [hother])
    · rw [get?_withTop_shadow, if_neg fun hboth => hother hboth.1]
      exact (h.2 other).imp_right fun heq => by rw [heq]

/-- Both topmost frames get a variable. -/
theorem Akin.write (h : s.Akin t) (name : String) (type : Ty) (v : Variable) :
    (s.withTop ((s.top.shadow name type).insert name v)).Akin
      (t.withTop ((t.top.shadow name type).insert name v)) := by
  refine ⟨fun other => ?_, fun other => ?_⟩
  · rw [get?_withTop_shadow_insert, get?_withTop_shadow_insert, h.1 other]
  · simp only [top_withTop, Frame.contains_insert, Frame.contains_shadow,
      get?_withTop_shadow_insert]
    by_cases hother : name = other
    · exact .inr (by simp [hother])
    · rw [if_neg hother]
      exact (h.2 other).imp_right fun heq => by rw [heq]

namespace Indistinct

/-- Scopes are indistinct from themselves. -/
theorem refl (s : Scopes) : Indistinct s s := by
  obtain ⟨program, overlays⟩ := s
  induction overlays with
  | nil => exact .program (.refl _)
  | cons frame frames ih => exact .overlay ih (.refl _)

/-- Scopes that are indistinct are akin. -/
theorem akin (h : Indistinct s t) : s.Akin t := by
  cases h with
  | program akin | overlay _ akin => exact akin

/-- A new frame leaves indistinct scopes indistinct. -/
theorem push (h : Indistinct s t) : Indistinct s.push t.push :=
  .overlay h ⟨h.akin.1, fun _ => .inr rfl⟩

/-- Dropping the topmost frames leaves indistinct scopes indistinct. -/
theorem pop (h : Indistinct s t) : Indistinct s.pop t.pop := by
  cases h with
  | program akin => exact .program akin
  | overlay below _ => exact below

/-- Indistinct scopes stay so if their topmost frames are exchanged for akin ones. -/
theorem withTop {f g : Frame} (h : Indistinct s t) (hakin : (s.withTop f).Akin (t.withTop g)) :
    Indistinct (s.withTop f) (t.withTop g) := by
  cases h with
  | program _ => exact .program hakin
  | overlay below _ => exact .overlay below hakin

/-- A declaration is refused by both or made by both. -/
theorem declare (h : Indistinct s t) (name : String) (type : Ty) :
    (∃ fault, s.declare name type = .error fault ∧ t.declare name type = .error fault) ∨
    ∃ s' t', s.declare name type = .ok s' ∧ t.declare name type = .ok t' ∧ Indistinct s' t' := by
  have hname := h.akin.1 name
  cases ht : t.get? name with
  | some d =>
    left
    exact ⟨_, declare_of_some (hname.trans ht) type, declare_of_some ht type⟩
  | none =>
    right
    have hs : s.get? name = none := hname.trans ht
    refine ⟨_, _, declare_of_none hs type, declare_of_none ht type, h.withTop ?_⟩
    rw [← Frame.shadow_of_none (top_get?_eq_none hs), ← Frame.shadow_of_none (top_get?_eq_none ht)]
    exact h.akin.shadow fun d hd => nomatch hs.symm.trans hd

/-- A write has the same outcome in both. -/
theorem assign (h : Indistinct s t) (name : String) (value : Value) :
    (s.assign name value).1 = (t.assign name value).1 ∧
      Indistinct (s.assign name value).2 (t.assign name value).2 := by
  have hname := h.akin.1 name
  rcases s.assign_cases name value with ⟨hs, heq⟩ | ⟨d, hs, hcases⟩
  · rcases t.assign_cases name value with ⟨-, heq'⟩ | ⟨d, ht, -⟩
    · rw [heq, heq']
      exact ⟨rfl, h⟩
    · cases (hname.trans ht).symm.trans hs
  · rcases t.assign_cases name value with ⟨ht, -⟩ | ⟨d', ht, hcases'⟩
    · cases (hname.trans ht).symm.trans hs
    obtain rfl : d' = d := Option.some.inj (ht.symm.trans (hname.symm.trans hs))
    rcases hcases with ⟨hne, heq⟩ | ⟨htype, heq⟩
    · rcases hcases' with ⟨-, heq'⟩ | ⟨htype, -⟩
      · rw [heq, heq']
        refine ⟨rfl, h.withTop (h.akin.shadow fun d hd => ?_)⟩
        exact congrArg Variable.type (Option.some.inj (hd.symm.trans hs))
      · exact absurd htype hne
    · rcases hcases' with ⟨hne, -⟩ | ⟨-, heq'⟩
      · exact absurd htype hne
      · rw [heq, heq']
        exact ⟨rfl, h.withTop (h.akin.write name _ _)⟩

/-- Indistinct scopes give the same answer, and stay indistinct. -/
theorem serve (h : Indistinct s t) (request : Request) :
    (store.serve s request).1 = (store.serve t request).1 ∧
      Indistinct (store.serve s request).2 (store.serve t request).2 := by
  cases request with
  | declare line name type =>
    simp only [VariableStore.serve, store]
    rcases h.declare name type with ⟨fault, hs, ht⟩ | ⟨s', t', hs, ht, h'⟩
    · rw [hs, ht]
      exact ⟨rfl, h⟩
    · rw [hs, ht]
      exact ⟨rfl, h'⟩
  | get line name =>
    refine ⟨?_, h⟩
    simp only [VariableStore.serve, store, (reads_eq (h.akin.1 name)).1]
  | value line name =>
    refine ⟨?_, h⟩
    simp only [VariableStore.serve, store, (reads_eq (h.akin.1 name)).2]
  | assign line name value =>
    obtain ⟨hanswer, hnext⟩ := h.assign name value
    simp only [VariableStore.serve, store, hanswer]
    exact ⟨trivial, hnext⟩
  | push => exact ⟨rfl, h.push⟩
  | pop => exact ⟨rfl, h.pop⟩

/-- Indistinct scopes give the same answers to all requests. -/
theorem transcript_eq (h : Indistinct s t) (requests : List Request) :
    store.transcript requests s = store.transcript requests t := by
  induction requests generalizing s t with
  | nil => rfl
  | cons request requests ih =>
    obtain ⟨hanswer, hnext⟩ := h.serve request
    rw [VariableStore.transcript, VariableStore.transcript, hanswer, ih hnext]

end Indistinct

/-! ## What a refusal leaves -/

section
variable {s' : Scopes} {request : Request} {e : RuntimeError}

/-- A refused request leaves the scopes alone, or it is a write to a name that is visible, but not
in the topmost frame, and leaves the name there without a value. -/
theorem serve_error (h : store.serve s request = (.error e, s')) :
    (s' = s ∧ ¬ request.ReachesBelow s) ∨
    ∃ line name value d, request = .assign line name value ∧ s.top.get? name = none ∧
      s.get? name = some d ∧ s' = s.withTop (s.top.insert name ⟨d.type, none⟩) := by
  cases request with
  | declare line name type =>
    left
    refine ⟨?_, id⟩
    simp only [VariableStore.serve, store] at h
    cases hdeclare : s.declare name type with
    | ok _ =>
      rw [hdeclare] at h
      cases h
    | error _ =>
      rw [hdeclare] at h
      cases h
      rfl
  | get line name | value line name =>
    left
    exact ⟨(congrArg Prod.snd h).symm, id⟩
  | assign line name value =>
    have hs' : (s.assign name value).2 = s' := congrArg Prod.snd h
    have hanswer : locate line ((s.assign name value).1.map fun _ => Answer.done) = .error e :=
      congrArg Prod.fst h
    rcases s.assign_cases name value with ⟨hname, heq⟩ | ⟨d, hd, ⟨-, heq⟩ | ⟨-, heq⟩⟩
    · left
      rw [heq] at hs'
      refine ⟨hs'.symm, fun hbelow => ?_⟩
      obtain ⟨-, v, hv⟩ := hbelow
      cases (value_of_none hname).symm.trans hv
    · rw [heq] at hs'
      cases htop : s.top.get? name with
      | some _ =>
        left
        rw [Frame.shadow_of_some htop, withTop_top] at hs'
        refine ⟨hs'.symm, fun hbelow => ?_⟩
        cases htop.symm.trans hbelow.1
      | none =>
        right
        rw [Frame.shadow_of_none htop] at hs'
        exact ⟨line, name, value, d, rfl, htop, hd, hs'.symm⟩
    · rw [heq] at hanswer
      cases hanswer
  | push | pop => cases h

/-- Binding a name without a value where it has none is not noticed. -/
theorem indistinct_of_value_none {d : Variable} (hd : s.get? name = some d)
    (hvalue : d.value = none) : Indistinct (s.withTop (s.top.insert name ⟨d.type, none⟩)) s := by
  obtain ⟨type, value⟩ := d
  cases hvalue
  have hshown : ∀ other,
      (s.withTop (s.top.insert name ⟨type, none⟩)).get? other = s.get? other := by
    intro other
    rw [get?_withTop_insert]
    split
    next hother => rw [← hother, hd]
    next => rfl
  have hakin : (s.withTop (s.top.insert name ⟨type, none⟩)).Akin (s.withTop s.top) := by
    rw [withTop_top]
    refine ⟨hshown, fun other => ?_⟩
    by_cases hother : name = other
    · exact .inl ⟨type, by rw [hshown, ← hother, hd]⟩
    · exact .inr (by simp [Frame.contains_insert, hother])
  simpa using (Indistinct.refl s).withTop hakin

end

end Scopes

/-- Whatever request is refused, every name has the variable and the value that it had, unless the
request is a write to a name whose value is in a frame below the topmost one. If it is not, no later
request tells the scopes from those before. If it is, the name keeps its type but loses its value,
while all other names, and the frames below, are as before. -/
theorem refused_write_unnoticed_iff {s s' : Scopes} {request : Request} {e : RuntimeError}
    (h : Scopes.store.serve s request = (.error e, s')) :
    ((∀ name, s'.get name = s.get name ∧ s'.value name = s.value name) ↔ ¬ request.ReachesBelow s) ∧
    (¬ request.ReachesBelow s →
      ∀ requests, Scopes.store.transcript requests s' = Scopes.store.transcript requests s) ∧
    ∀ line name value, request = .assign line name value → request.ReachesBelow s →
      s'.get name = (s.get name).map (fun d => ⟨d.type, none⟩) ∧
      s'.value name = .error (.uninitialized name) ∧
      (∀ other, name ≠ other → s'.get other = s.get other ∧ s'.value other = s.value other) ∧
      s'.pop = s.pop := by
  rcases Scopes.serve_error h with ⟨rfl, hbelow⟩ | ⟨line, name, value, d, rfl, htop, hd, rfl⟩
  · exact ⟨⟨fun _ => hbelow, fun _ _ => ⟨rfl, rfl⟩⟩, fun _ _ => rfl, fun _ _ _ _ h =>
      absurd h hbelow⟩
  cases hvalue : d.value with
  | none =>
    have hindistinct := Scopes.indistinct_of_value_none hd hvalue
    have hbelow : ¬ (Request.assign line name value).ReachesBelow s := by
      rintro ⟨-, v, hv⟩
      rw [Scopes.value_of_get? hd, hvalue] at hv
      cases hv
    exact ⟨⟨fun _ => hbelow, fun _ name => Scopes.reads_eq (hindistinct.akin.1 name)⟩,
      fun _ => hindistinct.transcript_eq, fun _ _ _ _ h => absurd h hbelow⟩
  | some v =>
    have hv : s.value name = .ok v := by rw [Scopes.value_of_get? hd, hvalue, Option.elim_some]
    have hbelow : (Request.assign line name value).ReachesBelow s := ⟨htop, v, hv⟩
    have hshown := s.get?_withTop_insert name ⟨d.type, none⟩
    have hhidden := Scopes.value_of_get? ((hshown name).trans (if_pos rfl))
    refine ⟨⟨fun hsame => ?_, fun hnot => absurd hbelow hnot⟩, fun hnot => absurd hbelow hnot, ?_⟩
    · cases hhidden.symm.trans ((hsame name).2.trans hv)
    · rintro _ _ _ ⟨⟩ -
      refine ⟨?_, hhidden, fun other hother => ?_, Scopes.pop_withTop htop hd _⟩
      · rw [Scopes.get, Scopes.get, hshown, if_pos rfl, hd]
        rfl
      · exact Scopes.reads_eq ((hshown other).trans (if_neg hother))

/-- A value of the wrong type for a variable of the program, written in an isolated frame, hides its
value. -/
theorem refused_write_hides_value :
    ∃ s s' e, [Request.declare 1 "x" .int, .assign 1 "x" (.int 1), .push].foldl
        (fun s request => (Scopes.store.serve s request).2) Scopes.store.empty = s ∧
      Scopes.store.serve s (.assign 2 "x" (.bool true)) = (.error e, s') ∧
      s.value "x" = .ok (.int 1) ∧ s'.value "x" = .error (.uninitialized "x") ∧ s'.pop = s.pop := by
  have h :
      Scopes.store.serve ⟨⟨[("x", ⟨.int, some (.int 1)⟩)]⟩, [.empty]⟩ (.assign 2 "x" (.bool true)) =
      (.error ⟨2, .storeMismatch "x" .int .bool⟩,
        ⟨⟨[("x", ⟨.int, some (.int 1)⟩)]⟩, [⟨[("x", ⟨.int, none⟩)]⟩]⟩) :=
    rfl
  obtain ⟨-, -, hidden⟩ := refused_write_unnoticed_iff h
  obtain ⟨-, hvalue, -, hpop⟩ := hidden 2 "x" (.bool true) rfl ⟨rfl, .int 1, rfl⟩
  exact ⟨_, _, _, rfl, h, rfl, hvalue, hpop⟩

end FormScript
