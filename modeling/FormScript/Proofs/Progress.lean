import FormScript.Proofs.Reading.Program

/-!
# What a successful rule leaves

`TokenStream.Advances k s s'` says that the stream `s'` stands at least `k` tokens behind `s` in the
same text and that as many constructs are open there. Every reading takes at least one token and
closes what it opens, up to the operators behind an operand, which may be none.
-/

namespace FormScript

namespace TokenStream

/-- The stream `s'` stands at least `k` tokens behind `s`, at the same depth. -/
structure Advances (k : Nat) (s s' : TokenStream) : Prop where
  ended : s'.Ended
  spans : ∃ w : List Token, k ≤ w.length ∧ s.Spans w s'
  depth_eq : s'.depth = s.depth

section
variable {s s₁ s' : TokenStream} {token : Token} {j k : Nat}

/-- What was taken is no longer ahead. -/
theorem Advances.ahead_le (h : Advances k s s') : s'.ahead.length + k ≤ s.ahead.length := by
  obtain ⟨w, hk, lexemes, hpending, rfl⟩ := h.spans
  have hlength := congrArg List.length hpending
  simp only [pending, List.length_cons, List.length_append, List.length_map] at hk hlength
  omega

/-- A stream stands no tokens behind itself. -/
theorem Advances.refl (hs : s.Ended) : Advances 0 s s :=
  ⟨hs, ⟨[], Nat.le_refl _, .refl s⟩, rfl⟩

/-- One reading behind another. -/
theorem Advances.step (h : Advances j s s₁) (hstep : s₁.Ended → Advances k s₁ s') :
    Advances (j + k) s s' where
  ended := (hstep h.ended).ended
  spans := by
    obtain ⟨w, hj, hw⟩ := h.spans
    obtain ⟨w', hk, hw'⟩ := (hstep h.ended).spans
    exact ⟨w ++ w', List.length_append ▸ Nat.add_le_add hj hk, hw.trans hw'⟩
  depth_eq := (hstep h.ended).depth_eq.trans h.depth_eq

/-- Not all tokens that were taken need to be counted. -/
theorem Advances.mono (h : Advances k s s') (hj : j ≤ k) : Advances j s s' where
  ended := h.ended
  spans := h.spans.imp fun _ hw => ⟨Nat.le_trans hj hw.1, hw.2⟩
  depth_eq := h.depth_eq

/-- Tokens that were taken stay taken. -/
theorem Advances.past (h : Advances j s s₁) (hstep : s₁.Ended → Advances k s₁ s') :
    Advances j s s' :=
  (h.step hstep).mono (Nat.le_add_right j k)

/-- A new node takes no token. -/
theorem Advances.numbered (h : Advances k s s') : Advances k s s'.numbered :=
  ⟨h.ended, h.spans, h.depth_eq⟩

/-- What is read one level deeper is closed again. -/
theorem Advances.shallower (h : Advances k s.deeper s') : Advances k s s'.shallower where
  ended := h.ended
  spans := h.spans
  depth_eq := by
    have := h.depth_eq
    rw [depth_deeper] at this
    rw [depth_shallower]
    omega

/-- At least one token stands between `s` and `s'`. -/
def Consumes (s s' : TokenStream) : Prop :=
  ∃ token w, s.Spans (token :: w) s'

/-- A token was consumed if one was taken at least. -/
theorem Advances.consumes (h : Advances (k + 1) s s') : s.Consumes s' := by
  obtain ⟨w, hk, hspan⟩ := h.spans
  obtain ⟨token, w, rfl⟩ := List.exists_cons_of_length_pos (Nat.lt_of_lt_of_le (Nat.succ_pos k) hk)
  exact ⟨token, w, hspan⟩

/-- Taking a token goes one token on. -/
theorem Takes.advances (h : s.Takes token s') (hs : s.Ended) : Advances 1 s s' :=
  ⟨h.ended hs, ⟨[token], Nat.le_refl _, h.spans⟩, h.depth_eq⟩

/-- Skipping line ends never goes back. -/
theorem Skips.advances (h : s.Skips s') (hs : s.Ended) : Advances 0 s s' :=
  ⟨h.ended hs, h.spans.elim fun k hk => ⟨lineEnds k, Nat.zero_le _, hk⟩, h.depth_eq⟩

end

end TokenStream

open TokenStream (Advances)

namespace Grammar

open Parse

/-! ## What a successful rule leaves -/

section
variable {s s' : TokenStream}

/-- A rule for expressions takes a token, up to the rule for the operators behind an operand. -/
def ExpressionRule.least : ExpressionRule → Nat
  | factor | tiers _ => 1
  | chain _ _ => 0

/-- A reading of an expression takes the tokens that its rule takes at least. -/
theorem ReadsExpression.advances {r : ExpressionRule} {d : Nat} {n : Node}
    (h : ReadsExpression r d s n s') (hs : s.Ended) : Advances r.least s s' := by
  induction h with
  | int take | str take | bool take | ident take => exact (take.advances hs).numbered
  | scan word left right =>
    exact ((((word.advances hs).step left.advances).step right.advances).mono (by decide)).numbered
  | parens left _ right ih =>
    exact ((((left.advances hs).step ih).step right.advances).mono (by decide)).shallower
  | prefixed _ take _ ih => exact (((take.advances hs).step ih).mono (by decide)).shallower.numbered
  | atom _ ih => exact ih hs
  | tier _ _ ih ih' => exact (ih hs).step ih'
  | stop => exact .refl hs
  | more _ take _ _ ih ih' =>
    have hright := ((take.advances hs).step ih).numbered
    exact ((hright.step ih').mono (Nat.zero_le _)).shallower

/-- An item of an array takes a token. -/
theorem ReadsItem.advances {n : Node} (h : ReadsItem s n s') (hs : s.Ended) : Advances 1 s s' := by
  cases h with
  | text take | name take => exact (take.advances hs).numbered

/-- The items of an array and the closing bracket take a token at least. -/
theorem ReadsItems.advances {ns : List Node} (h : ReadsItems s ns s') (hs : s.Ended) :
    Advances 1 s s' := by
  induction h with
  | close skip right => exact (skip.advances hs).step right.advances
  | last skip item skip' right =>
    have hitem := ((skip.advances hs).step item.advances).step skip'.advances
    exact (hitem.step right.advances).mono (by decide)
  | comma skip item skip' comma _ ih =>
    have hitem := ((skip.advances hs).step item.advances).step skip'.advances
    exact ((hitem.step comma.advances).step ih).mono (by decide)

/-- The value of a property takes a token at least. -/
theorem ReadsValue.advances {value : PropertyValue} (h : ReadsValue s value s') (hs : s.Ended) :
    Advances 1 s s' := by
  cases h with
  | text take | boolean take | integer take => exact (take.advances hs).numbered
  | array left read => exact ((left.advances hs).step read.advances).mono (by decide)

/-- Putting a property in its place takes no token. -/
theorem putProperty_advances {before after : List Node} {line : Nat} {key : String}
    {value : PropertyValue} (h : putProperty before line key value s = .ok after s')
    (hs : s.Ended) : Advances 0 s s' := by
  rcases putProperty_ok h with rfl | rfl
  · exact .refl hs
  · exact (Advances.refl hs).numbered

/-- A property takes a token at least. -/
theorem ReadsProperty.advances {before after : List Node} (h : ReadsProperty before s after s')
    (hs : s.Ended) : Advances 1 s s' := by
  obtain ⟨name, colon, read, put⟩ := h
  have hvalue := ((name.advances hs).step colon.advances).step read.advances
  exact (hvalue.step (putProperty_advances put)).mono (by decide)

/-- Properties and the closing brace take a token at least. -/
theorem ReadsProperties.advances {before after : List Node} (h : ReadsProperties before s after s')
    (hs : s.Ended) : Advances 1 s s' := by
  induction h with
  | close skip right => exact (skip.advances hs).step right.advances
  | comma skip property comma _ ih =>
    have hproperty := (skip.advances hs).step property.advances
    exact ((hproperty.step comma.advances).step ih).mono (by decide)
  | line skip property _ _ ih =>
    exact (((skip.advances hs).step property.advances).step ih).mono (by decide)

/-- A field takes a token at least. -/
theorem ReadsField.advances {n : Node} (h : ReadsField s n s') (hs : s.Ended) :
    Advances 1 s s' := by
  obtain ⟨word, title, left, read⟩ := h
  have hleft := ((word.advances hs).step title.advances).step left.advances
  exact ((hleft.step read.advances).mono (by decide)).numbered

/-- What a rule for blocks reads takes a token at least. -/
theorem ReadsBlock.advances {r : BlockRule} {d : Nat} {ns : List Node} (h : ReadsBlock r d s ns s')
    (hs : s.Ended) : Advances 1 s s' := by
  induction h with
  | block left newline _ ih =>
    have hbody := ((left.advances hs).step newline.advances).step ih
    exact (hbody.mono (by decide)).shallower.numbered
  | close right => exact right.advances hs
  | field first _ ih => exact ((first.advances hs).step ih).mono (by decide)
  | statement _ _ ih ih' => exact ((ih hs).step ih').mono (by decide)
  | print word left expr right newline =>
    have hexpr := ((word.advances hs).step left.advances).step expr.advances
    exact (((hexpr.step right.advances).step newline.advances).mono (by decide)).numbered
  | declare word title sort newline =>
    have hsort := ((word.advances hs).step title.advances).step sort.advances
    exact ((hsort.step newline.advances).mono (by decide)).numbered
  | declareInit word title sort sign init newline =>
    have hsort := ((word.advances hs).step title.advances).step sort.advances
    have hinit := (hsort.step sign.advances).step init.advances
    exact ((hinit.step newline.advances).mono (by decide)).numbered
  | assign title sign value newline =>
    have hvalue := ((title.advances hs).numbered.step sign.advances).step value.advances
    exact ((hvalue.step newline.advances).mono (by decide)).numbered
  | loop word condition _ newline ih | branch word condition _ newline ih =>
    have hbody := ((word.advances hs).step condition.advances).step ih
    exact ((hbody.step newline.advances).mono (by decide)).numbered
  | branchElse word condition _ other _ newline ih ih' =>
    have hpositive := ((word.advances hs).step condition.advances).step ih
    have hnegative := (hpositive.step other.advances).step ih'
    exact ((hnegative.step newline.advances).mono (by decide)).numbered
  | blank newline => exact (newline.advances hs).numbered
  | formLine _ newline ih => exact ((ih hs).step newline.advances).mono (by decide)
  | formBare _ _ ih => exact ih hs
  | form word title left _ ih =>
    have hleft := ((word.advances hs).step title.advances).step left.advances
    exact ((hleft.step ih).mono (by decide)).numbered
  | formClose skip right => exact (skip.advances hs).step right.advances
  | formField skip first _ ih =>
    exact (((skip.advances hs).step first.advances).step ih).mono (by decide)
  | formBlock skip word condition _ _ _ ih ih' =>
    have hcondition := ((skip.advances hs).step word.advances).step condition.advances
    exact ((hcondition.step ih).numbered.step ih').mono (by decide)

end

end Grammar

end FormScript
