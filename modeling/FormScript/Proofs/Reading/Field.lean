import FormScript.Grammar.Field
import FormScript.Proofs.Stream

/-!
# How field declarations are read

The readings of arrays, properties and field declarations, as relations between streams. None of
them opens a level, so a reading is simply what a run gives: `field_sound` says so in one direction
and `ReadsField.run` in the other.
-/

namespace FormScript.Grammar

open Parse

/-- A text or a name is read as an item of an array. -/
inductive ReadsItem : TokenStream → Node → TokenStream → Prop where
  | text {s s₁ : TokenStream} {content : String} (take : s.Takes (.text content) s₁) :
    ReadsItem s (.str (s₁.originAt s.current.line) content) s₁.numbered
  | name {s s₁ : TokenStream} {name : String} (take : s.Takes (.identifier name) s₁) :
    ReadsItem s (.ident (s₁.originAt s.current.line) name) s₁.numbered

/-- The items of an array are read, up to and with the closing bracket. -/
inductive ReadsItems : TokenStream → List Node → TokenStream → Prop where
  | close {s s₁ s' : TokenStream} (skip : s.Skips s₁) (right : s₁.Takes (.mark .closeBracket) s') :
    ReadsItems s [] s'
  | last {s s₁ s₂ s₃ s' : TokenStream} {n : Node} (skip : s.Skips s₁) (item : ReadsItem s₁ n s₂)
      (skip' : s₂.Skips s₃) (right : s₃.Takes (.mark .closeBracket) s') :
    ReadsItems s [n] s'
  | comma {s s₁ s₂ s₃ s₄ s' : TokenStream} {n : Node} {ns : List Node} (skip : s.Skips s₁)
      (item : ReadsItem s₁ n s₂) (skip' : s₂.Skips s₃) (comma : s₃.Takes (.mark .comma) s₄)
      (rest : ReadsItems s₄ ns s') :
    ReadsItems s (n :: ns) s'

/-- The value of a property is read. -/
inductive ReadsValue : TokenStream → PropertyValue → TokenStream → Prop where
  | text {s s₁ : TokenStream} {content : String} (take : s.Takes (.text content) s₁) :
    ReadsValue s (.scalar (.str (s₁.originAt s.current.line) content)) s₁.numbered
  | boolean {s s₁ : TokenStream} {b : Bool} (take : s.Takes (.boolean b) s₁) :
    ReadsValue s (.scalar (.bool (s₁.originAt s.current.line) b)) s₁.numbered
  | integer {s s₁ : TokenStream} {k : Int64} (take : s.Takes (.integer k) s₁) :
    ReadsValue s (.scalar (.int (s₁.originAt s.current.line) k)) s₁.numbered
  | array {s s₁ s' : TokenStream} {items : List Node} (left : s.Takes (.mark .openBracket) s₁)
      (read : ReadsItems s₁ items s') :
    ReadsValue s (.array items) s'

/-- A property is read and put in its place among those before it. -/
inductive ReadsProperty : List Node → TokenStream → List Node → TokenStream → Prop where
  | intro {s s₁ s₂ s₃ s' : TokenStream} {key : String} {value : PropertyValue}
      {before after : List Node}
      (name : s.Takes (.identifier key) s₁) (colon : s₁.Takes (.mark .colon) s₂)
      (read : ReadsValue s₂ value s₃)
      (put : putProperty before s.current.line key value s₃ = .ok after s') :
    ReadsProperty before s after s'

/-- Properties are read behind those before them, up to and with the closing brace. -/
inductive ReadsProperties : List Node → TokenStream → List Node → TokenStream → Prop where
  | close {s s₁ s' : TokenStream} {before : List Node} (skip : s.Skips s₁)
      (right : s₁.Takes (.mark .closeBrace) s') :
    ReadsProperties before s before s'
  | comma {s s₁ s₂ s₃ s' : TokenStream} {before now after : List Node} (skip : s.Skips s₁)
      (property : ReadsProperty before s₁ now s₂) (comma : s₂.Takes (.mark .comma) s₃)
      (rest : ReadsProperties now s₃ after s') :
    ReadsProperties before s after s'
  | line {s s₁ s₂ s' : TokenStream} {before now after : List Node} (skip : s.Skips s₁)
      (property : ReadsProperty before s₁ now s₂)
      (ends : s₂.current.token = .newline ∨ s₂.current.token = .mark .closeBrace)
      (rest : ReadsProperties now s₂ after s') :
    ReadsProperties before s after s'

/-- A field declaration is read. -/
inductive ReadsField : TokenStream → Node → TokenStream → Prop where
  | intro {s s₁ s₂ s₃ s₄ : TokenStream} {kind : FieldKind} {name : String} {properties : List Node}
      (word : s.Takes (.fieldKind kind) s₁) (title : s₁.Takes (.identifier name) s₂)
      (left : s₂.Takes (.mark .openBrace) s₃) (read : ReadsProperties [] s₃ properties s₄) :
    ReadsField s (.field (s₄.originAt s.current.line) kind name properties) s₄.numbered

/-! ## Arrays -/

section
variable {s s' : TokenStream}

/-- An item leaves fewer tokens ahead. -/
theorem ReadsItem.ahead_lt {n : Node} (h : ReadsItem s n s') :
    s'.ahead.length < s.ahead.length := by
  cases h with
  | text take | name take => exact take.ahead_lt

/-- The items of an array leave fewer tokens ahead. -/
theorem ReadsItems.ahead_lt {ns : List Node} (h : ReadsItems s ns s') :
    s'.ahead.length < s.ahead.length := by
  induction h with
  | close skip right => exact Nat.lt_of_lt_of_le right.ahead_lt skip.ahead_le
  | last skip item skip' right =>
    have := skip.ahead_le
    have := item.ahead_lt
    have := skip'.ahead_le
    have := right.ahead_lt
    omega
  | comma skip item skip' comma _ ih =>
    have := skip.ahead_le
    have := item.ahead_lt
    have := skip'.ahead_le
    have := comma.ahead_lt
    omega

/-- Behind a bracket that ends the array no item follows. -/
theorem ReadsItems.of_closeBracket {ns : List Node} (h : ReadsItems s ns s')
    (ht : s.current.token = .mark .closeBracket) :
    ns = [] ∧ s.Takes (.mark .closeBracket) s' := by
  have hskip : ∀ {s₁}, s.Skips s₁ → s₁ = s := by
    rintro s₁ (_ | ⟨newline, -⟩)
    · rfl
    · rw [newline.1] at ht; cases ht
  cases h with
  | close skip right =>
    cases hskip skip
    exact ⟨rfl, right⟩
  | last skip item _ _ | comma skip item _ _ _ =>
    cases hskip skip
    cases item with
    | text take | name take => rw [take.1] at ht; cases ht

/-- An item that the parser accepts is read. -/
theorem arrayItem_ok {n : Node} (hs : s.Ended) (h : arrayItem s = .ok n s') :
    s'.Ended ∧ ReadsItem s n s' := by
  rw [arrayItem, peek_bind] at h
  cases htoken : s.current.token with
  | text content =>
    rw [htoken] at h
    obtain ⟨s₁, take, hs₁, h⟩ := advance_bind_ok hs htoken (by simp) h
    cases h
    exact ⟨hs₁, .text take⟩
  | identifier name =>
    rw [htoken] at h
    obtain ⟨s₁, take, hs₁, h⟩ := advance_bind_ok hs htoken (by simp) h
    cases h
    exact ⟨hs₁, .name take⟩
  | _ =>
    rw [htoken] at h
    exact absurd h unexpected_ne_ok

/-- The parser accepts an item that is read. -/
theorem ReadsItem.run {n : Node} (h : ReadsItem s n s') : arrayItem s = .ok n s' := by
  cases h with
  | text take | name take =>
    rw [arrayItem, peek_bind, take.1]
    exact bind_of_ok (advance_of_takes take)

/-- The end of the array. -/
theorem arrayItem?_none (hs : s.Ended) (h : arrayItem? s = .ok none s') :
    s'.Ended ∧ ReadsItems s [] s' := by
  obtain ⟨s₁, skip, hs₁, h⟩ := skipNewlines_bind_ok hs h
  rcases eat_bind_ok hs₁ (by simp) h with ⟨s₂, right, hs₂, h⟩ | ⟨-, h⟩
  · cases h
    exact ⟨hs₂, .close skip right⟩
  · obtain ⟨n, s₂, h₂, h⟩ := bind_ok h
    obtain ⟨hs₂, -⟩ := arrayItem_ok hs₁ h₂
    obtain ⟨s₃, -, hs₃, h⟩ := skipNewlines_bind_ok hs₂ h
    rcases eat_bind_ok hs₃ (by simp) h with ⟨s₄, -, -, h⟩ | ⟨-, h⟩
    · cases h
    · rw [if_neg (by simp), check_bind] at h
      split at h
      · cases h
      · exact absurd h unexpected_ne_ok

/-- One more item in front of the rest of the array. -/
theorem arrayItem?_some {n : Node} (hs : s.Ended) (h : arrayItem? s = .ok (some n) s') :
    s'.Ended ∧ ∀ {ns s''}, ReadsItems s' ns s'' → ReadsItems s (n :: ns) s'' := by
  obtain ⟨s₁, skip, hs₁, h⟩ := skipNewlines_bind_ok hs h
  rcases eat_bind_ok hs₁ (by simp) h with ⟨s₂, -, -, h⟩ | ⟨-, h⟩
  · cases h
  · obtain ⟨n', s₂, h₂, h⟩ := bind_ok h
    obtain ⟨hs₂, item⟩ := arrayItem_ok hs₁ h₂
    obtain ⟨s₃, skip', hs₃, h⟩ := skipNewlines_bind_ok hs₂ h
    rcases eat_bind_ok hs₃ (by simp) h with ⟨s₄, comma, hs₄, h⟩ | ⟨-, h⟩
    · cases h
      exact ⟨hs₄, .comma skip item skip' comma⟩
    · rw [if_neg (by simp), check_bind] at h
      split at h
      · next hclose =>
        cases h
        refine ⟨hs₃, fun rest => ?_⟩
        obtain ⟨rfl, right⟩ := rest.of_closeBracket (of_decide_eq_true hclose)
        exact .last skip item skip' right
      · exact absurd h unexpected_ne_ok

/-- An array that the parser accepts is read. -/
theorem array_ok {ns : List Node} (hs : s.Ended) (h : array s = .ok ns s') :
    s'.Ended ∧ ∃ s₁, s.Takes (.mark .openBracket) s₁ ∧ ReadsItems s₁ ns s' := by
  obtain ⟨s₁, left, hs₁, h⟩ := expectMark_bind_ok hs h
  obtain ⟨hs', hitems⟩ := manyAlong_ok arrayItem?_none arrayItem?_some hs₁ h
  exact ⟨hs', s₁, left, hitems⟩

/-- An item does not start with a mark. -/
theorem ReadsItem.current_ne_mark {n : Node} (h : ReadsItem s n s') (m : Mark) :
    s.current.token ≠ .mark m := by
  cases h with
  | text take | name take => simp [take.1]

/-- The parser accepts items that are read, whatever bounds its loop beyond the tokens ahead. -/
theorem ReadsItems.manyAlong {ns : List Node} (h : ReadsItems s ns s') (along : List Reading)
    (hle : s.ahead.length ≤ along.length) :
    manyAlong "options array" arrayItem? along s = .ok ns s' := by
  induction h generalizing along with
  | close skip right =>
    refine manyAlong_of_none ?_
    rw [arrayItem?, bind_of_ok (skipNewlines_of_skips skip), bind_of_ok (eat_of_takes right)]
    rfl
  | @last s s₁ s₂ s₃ s' n skip item skip' right =>
    have hitem : arrayItem? s = .ok (some n) s₃ := by
      rw [arrayItem?, bind_of_ok (skipNewlines_of_skips skip),
        bind_of_ok (eat_of_ne (item.current_ne_mark _)), if_neg (by simp), bind_of_ok item.run,
        bind_of_ok (skipNewlines_of_skips skip'), bind_of_ok (eat_of_ne (by simp [right.1])),
        if_neg (by simp), check_bind, if_pos (by simp [right.1])]
      rfl
    have hend : arrayItem? s₃ = .ok none s' := by
      rw [arrayItem?, bind_of_ok (skipNewlines_of_skips (.done (by simp [right.1]))),
        bind_of_ok (eat_of_takes right)]
      rfl
    have := skip.ahead_le
    have := item.ahead_lt
    have := skip'.ahead_le
    exact manyAlong_of_some hitem (by omega) hle fun along _ => manyAlong_of_none hend
  | @comma s s₁ s₂ s₃ s₄ s' n ns skip item skip' comma _ ih =>
    have hitem : arrayItem? s = .ok (some n) s₄ := by
      rw [arrayItem?, bind_of_ok (skipNewlines_of_skips skip),
        bind_of_ok (eat_of_ne (item.current_ne_mark _)), if_neg (by simp), bind_of_ok item.run,
        bind_of_ok (skipNewlines_of_skips skip'), bind_of_ok (eat_of_takes comma)]
      rfl
    have := skip.ahead_le
    have := item.ahead_lt
    have := skip'.ahead_le
    have := comma.ahead_lt
    exact manyAlong_of_some hitem (by omega) hle ih

/-! ## Properties -/

/-- A value that the parser accepts is read. -/
theorem propertyValue_ok {value : PropertyValue} (hs : s.Ended)
    (h : propertyValue s = .ok value s') : s'.Ended ∧ ReadsValue s value s' := by
  rw [propertyValue, peek_bind] at h
  cases htoken : s.current.token with
  | text content =>
    rw [htoken] at h
    obtain ⟨s₁, take, hs₁, h⟩ := advance_bind_ok hs htoken (by simp) h
    cases h
    exact ⟨hs₁, .text take⟩
  | boolean b =>
    rw [htoken] at h
    obtain ⟨s₁, take, hs₁, h⟩ := advance_bind_ok hs htoken (by simp) h
    cases h
    exact ⟨hs₁, .boolean take⟩
  | integer k =>
    rw [htoken] at h
    obtain ⟨s₁, take, hs₁, h⟩ := advance_bind_ok hs htoken (by simp) h
    cases h
    exact ⟨hs₁, .integer take⟩
  | mark m =>
    rw [htoken] at h
    cases m with
    | openBracket =>
      obtain ⟨items, s₁, h₁, h⟩ := bind_ok h
      obtain ⟨hs₁, s₂, left, hitems⟩ := array_ok hs h₁
      cases h
      exact ⟨hs₁, .array left hitems⟩
    | _ => exact absurd h unexpected_ne_ok
  | _ =>
    rw [htoken] at h
    exact absurd h unexpected_ne_ok

/-- The parser accepts a value that is read. -/
theorem ReadsValue.run {value : PropertyValue} (h : ReadsValue s value s') :
    propertyValue s = .ok value s' := by
  cases h with
  | text take | boolean take | integer take =>
    rw [propertyValue, peek_bind, take.1]
    exact bind_of_ok (advance_of_takes take)
  | @array s₁ _ items left read =>
    have hrun : Grammar.array s = .ok items s' := by
      rw [Grammar.array, bind_of_ok (expectMark_of_takes left)]
      exact read.manyAlong _ (Nat.le_refl _)
    rw [propertyValue, peek_bind, left.1]
    exact bind_of_ok hrun

/-- A value leaves fewer tokens ahead. -/
theorem ReadsValue.ahead_lt {value : PropertyValue} (h : ReadsValue s value s') :
    s'.ahead.length < s.ahead.length := by
  cases h with
  | text take | boolean take | integer take => exact take.ahead_lt
  | array left read => exact Nat.lt_trans read.ahead_lt left.ahead_lt

/-- Putting a property in its place never fails. -/
theorem exists_putProperty (before : List Node) (line : Nat) (key : String) (value : PropertyValue)
    (s : TokenStream) : ∃ after s', putProperty before line key value s = .ok after s' := by
  unfold putProperty
  split
  · exact ⟨_, _, rfl⟩
  · exact ⟨_, _, rfl⟩

/-- Putting a property in its place leaves the readings of a stream alone. -/
theorem putProperty_ok {before after : List Node} {line : Nat} {key : String}
    {value : PropertyValue} (h : putProperty before line key value s = .ok after s') :
    s' = s ∨ s' = s.numbered := by
  unfold putProperty at h
  split at h
  · cases h
    exact .inl rfl
  · cases h
    exact .inr rfl

/-- A property leaves fewer tokens ahead. -/
theorem ReadsProperty.ahead_lt {before after : List Node} (h : ReadsProperty before s after s') :
    s'.ahead.length < s.ahead.length := by
  obtain ⟨name, colon, read, put⟩ := h
  have := name.ahead_lt
  have := colon.ahead_lt
  have := read.ahead_lt
  rcases putProperty_ok put with rfl | rfl
  · omega
  · rw [TokenStream.ahead_numbered]
    omega

/-- The end of the properties. -/
theorem nextProperty?_none {before : List Node} (hs : s.Ended)
    (h : nextProperty? before s = .ok none s') : s'.Ended ∧ ReadsProperties before s before s' := by
  obtain ⟨s₁, skip, hs₁, h⟩ := skipNewlines_bind_ok hs h
  rcases eat_bind_ok hs₁ (by simp) h with ⟨s₂, right, hs₂, h⟩ | ⟨-, h⟩
  · cases h
    exact ⟨hs₂, .close skip right⟩
  · rw [if_neg (by simp), peek_bind] at h
    obtain ⟨key, s₂, -, hs₂, h⟩ := expectIdentifier_bind_ok hs₁ h
    obtain ⟨s₃, -, hs₃, h⟩ := expectMark_bind_ok hs₂ h
    obtain ⟨value, s₄, h₄, h⟩ := bind_ok h
    obtain ⟨hs₄, -⟩ := propertyValue_ok hs₃ h₄
    obtain ⟨after, s₅, h₅, h⟩ := bind_ok h
    have hs₅ : s₅.Ended := by obtain rfl | rfl := putProperty_ok h₅ <;> exact hs₄
    rcases eat_bind_ok hs₅ (by simp) h with ⟨s₆, -, -, h⟩ | ⟨-, h⟩
    · cases h
    · rw [if_neg (by simp), check_bind] at h
      split at h
      · cases h
      · rw [check_bind] at h
        split at h
        · cases h
        · exact absurd h unexpected_ne_ok

/-- One more property in front of the rest. -/
theorem nextProperty?_some {before now : List Node} (hs : s.Ended)
    (h : nextProperty? before s = .ok (some now) s') :
    s'.Ended ∧ ∀ {after s''}, ReadsProperties now s' after s'' →
      ReadsProperties before s after s'' := by
  obtain ⟨s₁, skip, hs₁, h⟩ := skipNewlines_bind_ok hs h
  rcases eat_bind_ok hs₁ (by simp) h with ⟨s₂, -, -, h⟩ | ⟨-, h⟩
  · cases h
  · rw [if_neg (by simp), peek_bind] at h
    obtain ⟨key, s₂, name, hs₂, h⟩ := expectIdentifier_bind_ok hs₁ h
    obtain ⟨s₃, colon, hs₃, h⟩ := expectMark_bind_ok hs₂ h
    obtain ⟨value, s₄, h₄, h⟩ := bind_ok h
    obtain ⟨hs₄, read⟩ := propertyValue_ok hs₃ h₄
    obtain ⟨after, s₅, put, h⟩ := bind_ok h
    have hs₅ : s₅.Ended := by obtain rfl | rfl := putProperty_ok put <;> exact hs₄
    have property : ReadsProperty before s₁ after s₅ := ⟨name, colon, read, put⟩
    rcases eat_bind_ok hs₅ (by simp) h with ⟨s₆, comma, hs₆, h⟩ | ⟨-, h⟩
    · cases h
      exact ⟨hs₆, .comma skip property comma⟩
    · rw [if_neg (by simp), check_bind] at h
      split at h
      · next hnewline =>
        cases h
        exact ⟨hs₅, .line skip property (.inl (of_decide_eq_true hnewline))⟩
      · rw [check_bind] at h
        split at h
        · next hclose =>
          cases h
          exact ⟨hs₅, .line skip property (.inr (of_decide_eq_true hclose))⟩
        · exact absurd h unexpected_ne_ok

/-- A property with what stands in front of it is what one step of the loop reads, up to the look
behind the property. -/
theorem ReadsProperty.nextProperty? {s₁ : TokenStream} {before after : List Node}
    (skip : s.Skips s₁) (h : ReadsProperty before s₁ after s') :
    nextProperty? before s = (do
      if ← eat (.mark .comma) then
        return some after
      if ← check .newline then
        return some after
      if ← check (.mark .closeBrace) then
        return some after
      unexpected "',', a newline or '\x7d'" "field properties" :
        Parse (Option (List Node))) s' := by
  obtain ⟨name, colon, read, put⟩ := h
  rw [Grammar.nextProperty?, bind_of_ok (skipNewlines_of_skips skip),
    bind_of_ok (eat_of_ne (by simp [name.1])), if_neg (by simp), peek_bind,
    bind_of_ok (expectIdentifier_of_takes name), bind_of_ok (expectMark_of_takes colon),
    bind_of_ok read.run, bind_of_ok put]

/-- The parser accepts properties that are read, whatever bounds its loop beyond the tokens
ahead. -/
theorem ReadsProperties.foldAlong {before after : List Node} (h : ReadsProperties before s after s')
    (along : List Reading) (hle : s.ahead.length ≤ along.length) :
    foldAlong "field properties" nextProperty? along before s = .ok after s' := by
  induction h generalizing along with
  | close skip right =>
    refine foldAlong_of_none ?_
    rw [nextProperty?, bind_of_ok (skipNewlines_of_skips skip), bind_of_ok (eat_of_takes right)]
    rfl
  | @comma s s₁ s₂ s₃ s' before now after skip property comma _ ih =>
    have hstep : nextProperty? before s = .ok (some now) s₃ := by
      rw [property.nextProperty? skip, bind_of_ok (eat_of_takes comma)]
      rfl
    have := skip.ahead_le
    have := property.ahead_lt
    have := comma.ahead_lt
    exact foldAlong_of_some hstep (by omega) hle ih
  | @line s s₁ s₂ s' before now after skip property ends _ ih =>
    have hstep : nextProperty? before s = .ok (some now) s₂ := by
      rw [property.nextProperty? skip]
      rcases ends with hnewline | hclose
      · rw [bind_of_ok (eat_of_ne (by simp [hnewline])), if_neg (by simp), check_bind,
          if_pos (by simp [hnewline])]
        rfl
      · rw [bind_of_ok (eat_of_ne (by simp [hclose])), if_neg (by simp), check_bind,
          if_neg (by simp [hclose]), check_bind, if_pos (by simp [hclose])]
        rfl
    have := skip.ahead_le
    have := property.ahead_lt
    exact foldAlong_of_some hstep (by omega) hle ih

/-- The properties of a field leave fewer tokens ahead. -/
theorem ReadsProperties.ahead_lt {before after : List Node}
    (h : ReadsProperties before s after s') : s'.ahead.length < s.ahead.length := by
  induction h with
  | close skip right => exact Nat.lt_of_lt_of_le right.ahead_lt skip.ahead_le
  | comma skip property comma _ ih =>
    have := skip.ahead_le
    have := property.ahead_lt
    have := comma.ahead_lt
    omega
  | line skip property _ _ ih =>
    have := skip.ahead_le
    have := property.ahead_lt
    omega

/-! ## Fields -/

/-- A successful run of the rule for field declarations is a reading. -/
theorem field_sound {n : Node} (hs : s.Ended) (h : fieldDeclaration s = .ok n s') :
    s'.Ended ∧ ReadsField s n s' := by
  rw [fieldDeclaration, peek_bind] at h
  cases htoken : s.current.token with
  | fieldKind kind =>
    rw [htoken] at h
    obtain ⟨s₁, word, hs₁, h⟩ := advance_bind_ok hs htoken (by simp) h
    obtain ⟨name, s₂, title, hs₂, h⟩ := expectIdentifier_bind_ok hs₁ h
    obtain ⟨s₃, left, hs₃, h⟩ := expectMark_bind_ok hs₂ h
    obtain ⟨ps, s₄, h₄, h⟩ := bind_ok h
    obtain ⟨hs₄, read⟩ := foldAlong_ok nextProperty?_none nextProperty?_some hs₃ h₄
    cases h
    exact ⟨hs₄, .intro word title left read⟩
  | _ =>
    rw [htoken] at h
    exact absurd h unexpected_ne_ok

/-- A reading of a field declaration is what the rule gives. -/
theorem ReadsField.run {n : Node} (h : ReadsField s n s') : fieldDeclaration s = .ok n s' := by
  obtain ⟨word, title, left, read⟩ := h
  rw [fieldDeclaration, peek_bind, word.1]
  simp only [bind_of_ok (advance_of_takes word), bind_of_ok (expectIdentifier_of_takes title),
    bind_of_ok (expectMark_of_takes left)]
  exact bind_of_ok (read.foldAlong _ (Nat.le_refl _))

/-- A field starts with its kind. -/
theorem ReadsField.first_token {n : Node} (h : ReadsField s n s') :
    ∃ kind, s.current.token = .fieldKind kind := by
  obtain ⟨word, -, -, -⟩ := h
  exact ⟨_, word.1⟩

/-- A field leaves fewer tokens ahead. -/
theorem ReadsField.ahead_lt {n : Node} (h : ReadsField s n s') :
    s'.ahead.length < s.ahead.length := by
  obtain ⟨word, title, left, read⟩ := h
  have := word.ahead_lt
  have := title.ahead_lt
  have := left.ahead_lt
  have := read.ahead_lt
  rw [TokenStream.ahead_numbered]
  omega

end

end FormScript.Grammar
