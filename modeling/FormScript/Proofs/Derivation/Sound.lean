import FormScript.Proofs.Derivation.Basic
import FormScript.Proofs.Reading.Program

/-!
# What is read is derived

The tokens between the two streams of a reading are derived by the rule that was read. A reading at
depth `d` gives a derivation within every number of levels from `d` on. The lines of a form's block
are read by the rule for all lines and checked afterwards; the derivation sorts them out
(`BlockRule.Derived`).
-/

namespace FormScript.Grammar

open TokenStream (lineEnds)

section
variable {s s' : TokenStream}

/-! ## Fields -/

/-- What is read as an item derives as one. -/
theorem ReadsItem.derives {n : Node} (h : ReadsItem s n s') :
    ∃ w, s.Spans w s' ∧ DerivesItem w := by
  cases h with
  | text take => exact ⟨_, take.spans, .text _⟩
  | name take => exact ⟨_, take.spans, .name _⟩

/-- What is read as the items of an array derives between its brackets. -/
theorem ReadsItems.derives {ns : List Node} (h : ReadsItems s ns s') :
    ∃ k w, s.Spans (lineEnds k ++ w ++ [.mark .closeBracket]) s' ∧ DerivesArrayBody w := by
  induction h with
  | close skip right =>
    obtain ⟨k, hk⟩ := skip.spans
    exact ⟨k, [], by simpa using hk.trans right.spans, .empty⟩
  | last skip item skip' right =>
    obtain ⟨j, hj⟩ := skip.spans
    obtain ⟨w, hw, hitem⟩ := item.derives
    obtain ⟨k, hk⟩ := skip'.spans
    exact ⟨j, _, by simpa using hj.trans (hw.trans (hk.trans right.spans)), .full k hitem .none⟩
  | comma skip item skip' comma _ ih =>
    obtain ⟨j, hj⟩ := skip.spans
    obtain ⟨w, hw, hitem⟩ := item.derives
    obtain ⟨k, hk⟩ := skip'.spans
    obtain ⟨l, w', hrest, hbody⟩ := ih
    have hspan := hj.trans (hw.trans (hk.trans (comma.spans.trans hrest)))
    cases hbody with
    | empty => exact ⟨j, _, by simpa using hspan, .trailing k l hitem .none⟩
    | full k' hitem' hmore =>
      exact ⟨j, _, by simpa using hspan, .full k hitem (.comma l k' hitem' hmore)⟩
    | trailing k' l' hitem' hmore =>
      exact ⟨j, _, by simpa using hspan, .trailing k l' hitem (.comma l k' hitem' hmore)⟩

/-- What is read as a value derives as one. -/
theorem ReadsValue.derives {value : PropertyValue} (h : ReadsValue s value s') :
    ∃ w, s.Spans w s' ∧ DerivesValue w := by
  cases h with
  | text take => exact ⟨_, take.spans, .text _⟩
  | boolean take => exact ⟨_, take.spans, .boolean _⟩
  | integer take => exact ⟨_, take.spans, .integer _⟩
  | array left read =>
    obtain ⟨k, w, hw, hbody⟩ := read.derives
    exact ⟨_, by simpa using left.spans.trans hw, .array (.intro k hbody)⟩

/-- What is read as a property derives as one. -/
theorem ReadsProperty.derives {before after : List Node} (h : ReadsProperty before s after s') :
    ∃ w, s.Spans w s' ∧ DerivesProperty w := by
  obtain ⟨name, colon, read, put⟩ := h
  obtain ⟨w, hw, hvalue⟩ := read.derives
  have hspan := name.spans.trans (colon.spans.trans hw)
  rcases putProperty_ok put with rfl | rfl
  · exact ⟨_, hspan, .intro _ hvalue⟩
  · exact ⟨_, hspan, .intro _ hvalue⟩

/-- In front of one more property that stands behind another, without a comma, is a line end. -/
theorem exists_lineEnds_succ {k : Nat} {w w' : List Token} (hw : DerivesProperty w)
    (hspan : s.Spans (lineEnds k ++ (w ++ w')) s')
    (ends : s.current.token = .newline ∨ s.current.token = .mark .closeBrace) : ∃ j, k = j + 1 := by
  cases k with
  | zero =>
    obtain ⟨key, -⟩ := hw
    have hcurrent : s.current.token = .identifier key := hspan.current_eq
    simp [hcurrent] at ends
  | succ k => exact ⟨k, rfl⟩

/-- What is read as the properties of a field derives between its braces. -/
theorem ReadsProperties.derives {before after : List Node} (h : ReadsProperties before s after s') :
    ∃ k w, s.Spans (lineEnds k ++ w ++ [.mark .closeBrace]) s' ∧ DerivesFieldBody w := by
  induction h with
  | close skip right =>
    obtain ⟨k, hk⟩ := skip.spans
    exact ⟨k, [], by simpa using hk.trans right.spans, .empty⟩
  | comma skip property comma _ ih =>
    obtain ⟨j, hj⟩ := skip.spans
    obtain ⟨w, hw, hproperty⟩ := property.derives
    obtain ⟨k, w', hrest, hbody⟩ := ih
    have hspan := hj.trans (hw.trans (comma.spans.trans hrest))
    cases hbody with
    | empty => exact ⟨j, _, by simpa using hspan, .trailing k hproperty .none⟩
    | full l hproperty' hmore =>
      exact ⟨j, _, by simpa using hspan, .full l hproperty (.comma k hproperty' hmore)⟩
    | trailing l hproperty' hmore =>
      exact ⟨j, _, by simpa using hspan, .trailing l hproperty (.comma k hproperty' hmore)⟩
  | line skip property ends _ ih =>
    obtain ⟨j, hj⟩ := skip.spans
    obtain ⟨w, hw, hproperty⟩ := property.derives
    obtain ⟨k, w', hrest, hbody⟩ := ih
    have hspan := hj.trans (hw.trans hrest)
    cases hbody with
    | empty => exact ⟨j, _, by simpa using hspan, .full k hproperty .none⟩
    | full l hproperty' hmore =>
      obtain ⟨k, rfl⟩ := exists_lineEnds_succ hproperty' (by simpa using hrest) ends
      exact ⟨j, _, by simpa [List.replicate_succ] using hspan,
        .full l hproperty (.line k hproperty' hmore)⟩
    | trailing l hproperty' hmore =>
      obtain ⟨k, rfl⟩ := exists_lineEnds_succ hproperty' (by simpa using hrest) ends
      exact ⟨j, _, by simpa [List.replicate_succ] using hspan,
        .trailing l hproperty (.line k hproperty' hmore)⟩

/-- What is read as a field derives as one. -/
theorem ReadsField.derives {n : Node} (h : ReadsField s n s') :
    ∃ w, s.Spans w s' ∧ DerivesField w := by
  obtain ⟨word, title, left, read⟩ := h
  obtain ⟨k, w, hw, hbody⟩ := read.derives
  have hspan := word.spans.trans (title.spans.trans (left.spans.trans hw))
  exact ⟨_, by simpa using hspan, .intro _ _ k hbody⟩

/-! ## Expressions -/

/-- The part of an expression that a rule reads. -/
def ExpressionRule.symbol : ExpressionRule → ExpressionSymbol
  | factor => .factor
  | tiers ts => .tiers ts
  | chain t _ => .chain t

/-- What a rule for expressions reads derives as its part, within the levels of the reading. -/
theorem ReadsExpression.derives {r : ExpressionRule} {d : Nat} {n : Node}
    (h : ReadsExpression r d s n s') (hr : ∀ ts, r = .tiers ts → Tier.Layered ts) :
    ∃ w, s.Spans w s' ∧ ∀ levels, d ≤ levels → DerivesExpression levels r.symbol w := by
  induction h with
  | int take => exact ⟨_, take.spans, fun levels _ => .integer levels _⟩
  | str take => exact ⟨_, take.spans, fun levels _ => .text levels _⟩
  | bool take => exact ⟨_, take.spans, fun levels _ => .boolean levels _⟩
  | ident take => exact ⟨_, take.spans, fun levels _ => .name levels _⟩
  | scan word left right =>
    exact ⟨_, word.spans.trans (left.spans.trans right.spans), fun levels _ => .scan levels⟩
  | parens left _ right ih =>
    obtain ⟨w, hw, hinner⟩ := ih (by rintro ts ⟨⟩; exact .inr ⟨.or, rfl⟩)
    exact ⟨_, (left.spans.trans hw).trans right.spans, fun
      | levels + 1, hd => .parens (hinner levels (Nat.le_of_succ_le_succ hd))⟩
  | prefixed sign take _ ih =>
    obtain ⟨w, hw, hoperand⟩ := ih nofun
    obtain ⟨mark, hmark, rfl⟩ := prefixOperator?_isSome_iff.1 (Option.isSome_of_eq_some sign)
    exact ⟨_, take.spans.trans hw, fun
      | levels + 1, hd => .signed hmark (hoperand levels (Nat.le_of_succ_le_succ hd))⟩
  | atom _ ih =>
    obtain ⟨w, hw, hfactor⟩ := ih nofun
    exact ⟨w, hw, fun levels hd => .atom (hfactor levels hd)⟩
  | @tier _ _ _ _ _ t ts _ _ _ _ ih ih' =>
    obtain rfl : ts = t.tighter := by simpa [Tier.Layered] using hr _ rfl
    obtain ⟨w, hw, hoperand⟩ := ih (by rintro ts ⟨⟩; exact t.layered_tighter)
    obtain ⟨w', hw', hoperators⟩ := ih' nofun
    refine ⟨_, hw.trans hw', fun levels hd => ?_⟩
    obtain ⟨hd, hd'⟩ := Nat.max_le.1 hd
    exact .tier (hoperand levels hd) (hoperators levels hd')
  | stop => exact ⟨[], .refl _, fun levels _ => .stop levels _⟩
  | @more _ _ _ _ t _ _ _ _ _ _ _ sign take _ _ ih ih' =>
    obtain ⟨mark, hmark, rfl⟩ := Tier.operator?_isSome_iff.1 (Option.isSome_of_eq_some sign)
    obtain ⟨w, hw, hoperand⟩ := ih (by rintro ts ⟨⟩; exact t.layered_tighter)
    obtain ⟨w', hw', hoperators⟩ := ih' nofun
    refine ⟨_, (take.spans.trans hw).trans hw', fun | levels + 1, hd => ?_⟩
    obtain ⟨hd, hd'⟩ := Nat.max_le.1 (Nat.le_of_succ_le_succ hd)
    exact .more hmark (hoperand levels hd) (hoperators levels hd')

/-- What is read as a whole expression derives as one. -/
theorem ReadsExpression.derives_all {d : Nat} {n : Node}
    (h : ReadsExpression (.tiers Tier.all) d s n s') :
    ∃ w, s.Spans w s' ∧ ∀ levels, d ≤ levels → DerivesExpression levels (.tiers Tier.all) w :=
  h.derives (by rintro ts ⟨⟩; exact .inr ⟨.or, rfl⟩)

/-! ## Blocks -/

/-- What the tokens `w` are for a rule that read the nodes `ns` from them. A block or a line that a
form admits is derived by the rules for lines of forms too. -/
def BlockRule.Derived (levels : Nat) (ns : List Node) (w : List Token) : BlockRule → Prop
  | block => DerivesBlock levels .block w ∧
    ∀ (container : FormContainer) origin body, ns = [.block origin body] →
      (∀ n ∈ body, container.admits n = true) →
      ∃ inner v, levels = inner + 1 ∧ w = [.mark .openBrace, .newline] ++ v ++ [.mark .closeBrace] ∧
        DerivesBlock inner (.formLines container) v
  | items => ∃ v, w = v ++ [.mark .closeBrace] ∧ DerivesBlock levels .lines v ∧
    ∀ container : FormContainer, (∀ n ∈ ns, container.admits n = true) →
    DerivesBlock levels (.formLines container) v
  | statement => DerivesBlock levels .statement w ∧
    ∀ container : FormContainer, (∀ n ∈ ns, container.admits n = true) →
      w = [.newline] ∨ container = .loop ∧ DerivesBlock levels .assignment w
  | form => DerivesBlock levels .form w
  | children => ∃ v, w = v ++ [.mark .closeBrace] ∧ DerivesBlock levels .children v

/-- Line ends may stand in front of the children of a form. -/
theorem DerivesBlock.lineEnds_children {levels : Nat} {w : List Token}
    (h : DerivesBlock levels .children w) (k : Nat) :
    DerivesBlock levels .children (lineEnds k ++ w) := by
  induction k with
  | zero => exact h
  | succ k ih => exact .childNewline ih

/-- What a rule for blocks reads derives as its part, within the levels of the reading. -/
theorem ReadsBlock.derives {r : BlockRule} {d : Nat} {ns : List Node} (h : ReadsBlock r d s ns s') :
    ∃ w, s.Spans w s' ∧ ∀ levels, d ≤ levels → r.Derived levels ns w := by
  induction h with
  | block left newline _ ih =>
    obtain ⟨w, hw, hlines⟩ := ih
    refine ⟨_, (left.spans.trans newline.spans).trans hw, fun | levels + 1, hd => ?_⟩
    obtain ⟨v, rfl, hlines, hform⟩ := hlines levels (Nat.le_of_succ_le_succ hd)
    refine ⟨by simpa using DerivesBlock.block hlines, ?_⟩
    rintro container origin body ⟨⟩ hadmits
    exact ⟨levels, v, rfl, by simp, hform container hadmits⟩
  | close right =>
    exact ⟨_, right.spans, fun levels _ =>
      ⟨[], rfl, .noLine levels, fun container _ => .noFormLine levels container⟩⟩
  | field first _ ih =>
    obtain ⟨w, hw, hfield⟩ := first.derives
    obtain ⟨w', hw', hrest⟩ := ih
    refine ⟨_, hw.trans hw', fun levels hd => ?_⟩
    obtain ⟨v, rfl, hlines, hform⟩ := hrest levels hd
    refine ⟨w ++ v, by simp, .field hfield hlines, fun container hadmits => ?_⟩
    exact .formField hfield (hform container fun n hn => hadmits n (.tail _ hn))
  | statement _ _ ih ih' =>
    obtain ⟨w, hw, hfirst⟩ := ih
    obtain ⟨w', hw', hrest⟩ := ih'
    refine ⟨_, hw.trans hw', fun levels hd => ?_⟩
    obtain ⟨hd, hd'⟩ := Nat.max_le.1 hd
    obtain ⟨hstatement, hform⟩ := hfirst levels hd
    obtain ⟨v, rfl, hlines, hforms⟩ := hrest levels hd'
    refine ⟨w ++ v, by simp, .statement hstatement hlines, fun container hadmits => ?_⟩
    have hforms := hforms container fun n hn => hadmits n (.tail _ hn)
    rcases hform container (by simpa using hadmits _ (.head _)) with rfl | ⟨rfl, hassign⟩
    · exact .formNewline hforms
    · exact .formAssignment hassign hforms
  | print word left expr right newline =>
    obtain ⟨w, hw, hexpr⟩ := expr.derives_all
    have hspan := ((word.spans.trans left.spans).trans hw).trans (right.spans.trans newline.spans)
    exact ⟨_, hspan, fun levels hd => ⟨.print (hexpr levels hd), by simp [FormContainer.admits]⟩⟩
  | declare word title sort newline =>
    have hspan := word.spans.trans (title.spans.trans (sort.spans.trans newline.spans))
    exact ⟨_, hspan, fun levels _ => ⟨.declare levels _ _, by simp [FormContainer.admits]⟩⟩
  | declareInit word title sort sign init newline =>
    obtain ⟨w, hw, hinit⟩ := init.derives_all
    have hsign := word.spans.trans (title.spans.trans (sort.spans.trans sign.spans))
    have hspan := (hsign.trans hw).trans newline.spans
    exact ⟨_, hspan, fun levels hd =>
      ⟨.declareInit _ _ (hinit levels hd), by simp [FormContainer.admits]⟩⟩
  | @assign _ _ _ _ _ _ name _ title sign value newline =>
    obtain ⟨w, hw, hvalue⟩ := value.derives_all
    have hspan := ((title.spans.trans sign.spans).trans hw).trans newline.spans
    refine ⟨_, hspan, fun levels hd => ?_⟩
    have hassign := DerivesBlock.assignment name (hvalue levels hd)
    exact ⟨.assign hassign, fun container hadmits =>
      .inr ⟨by simpa [FormContainer.admits] using hadmits, hassign⟩⟩
  | loop word condition _ newline ih =>
    obtain ⟨w, hw, hcondition⟩ := condition.derives_all
    obtain ⟨w', hw', hbody⟩ := ih
    refine ⟨_, ((word.spans.trans hw).trans hw').trans newline.spans, fun levels hd => ?_⟩
    obtain ⟨hd, hd'⟩ := Nat.max_le.1 hd
    exact ⟨.loop (hcondition levels hd) (hbody levels hd').1, by simp [FormContainer.admits]⟩
  | branch word condition _ newline ih =>
    obtain ⟨w, hw, hcondition⟩ := condition.derives_all
    obtain ⟨w', hw', hpositive⟩ := ih
    refine ⟨_, ((word.spans.trans hw).trans hw').trans newline.spans, fun levels hd => ?_⟩
    obtain ⟨hd, hd'⟩ := Nat.max_le.1 hd
    exact ⟨.branch (hcondition levels hd) (hpositive levels hd').1, by simp [FormContainer.admits]⟩
  | branchElse word condition _ other _ newline ih ih' =>
    obtain ⟨w, hw, hcondition⟩ := condition.derives_all
    obtain ⟨w', hw', hpositive⟩ := ih
    obtain ⟨w'', hw'', hnegative⟩ := ih'
    have hspan := ((((word.spans.trans hw).trans hw').trans other.spans).trans hw'').trans
      newline.spans
    refine ⟨_, hspan, fun levels hd => ?_⟩
    obtain ⟨hd, hd'⟩ := Nat.max_le.1 hd
    obtain ⟨hd', hd''⟩ := Nat.max_le.1 hd'
    exact ⟨.branchElse (hcondition levels hd) (hpositive levels hd').1 (hnegative levels hd'').1,
      by simp [FormContainer.admits]⟩
  | blank newline =>
    exact ⟨_, newline.spans, fun levels _ => ⟨.blank levels, fun _ _ => .inl rfl⟩⟩
  | formLine read newline ih =>
    obtain ⟨w, hw, hform⟩ := ih
    obtain ⟨origin, name, body, rfl⟩ := read.eq_form
    exact ⟨_, hw.trans newline.spans, fun levels hd =>
      ⟨.formLine (hform levels hd), by simp [FormContainer.admits]⟩⟩
  | formBare read _ ih =>
    obtain ⟨w, hw, hform⟩ := ih
    obtain ⟨origin, name, body, rfl⟩ := read.eq_form
    exact ⟨w, hw, fun levels hd => ⟨.formBare (hform levels hd), by simp [FormContainer.admits]⟩⟩
  | form word title left _ ih =>
    obtain ⟨w, hw, hchildren⟩ := ih
    have hspan := (word.spans.trans (title.spans.trans left.spans)).trans hw
    refine ⟨_, hspan, fun levels hd => ?_⟩
    obtain ⟨v, rfl, hlist⟩ := hchildren levels hd
    rw [← List.append_assoc]
    exact .form _ hlist
  | formClose skip right =>
    obtain ⟨k, hk⟩ := skip.spans
    exact ⟨_, hk.trans right.spans, fun levels _ =>
      ⟨lineEnds k, rfl, by simpa using (DerivesBlock.noChild levels).lineEnds_children k⟩⟩
  | formField skip first _ ih =>
    obtain ⟨k, hk⟩ := skip.spans
    obtain ⟨w, hw, hfield⟩ := first.derives
    obtain ⟨w', hw', hrest⟩ := ih
    refine ⟨_, hk.trans (hw.trans hw'), fun levels hd => ?_⟩
    obtain ⟨v, rfl, hchildren⟩ := hrest levels hd
    exact ⟨lineEnds k ++ (w ++ v), by simp,
      (DerivesBlock.childField hfield hchildren).lineEnds_children k⟩
  | formBlock skip word condition _ admitted _ ih ih' =>
    obtain ⟨k, hk⟩ := skip.spans
    obtain ⟨w, hw, hcondition⟩ := condition.derives_all
    obtain ⟨w', hw', hbody⟩ := ih
    obtain ⟨w'', hw'', hrest⟩ := ih'
    refine ⟨_, hk.trans (((word.spans.trans hw).trans hw').trans hw''), fun levels hd => ?_⟩
    obtain ⟨hd, hd''⟩ := Nat.max_le.1 hd
    obtain ⟨hd, hd'⟩ := Nat.max_le.1 hd
    obtain ⟨inner, v, rfl, rfl, hlines⟩ := (hbody levels hd').2 _ _ _ rfl admitted
    obtain ⟨v', rfl, hchildren⟩ := hrest _ hd''
    have hchild := DerivesBlock.childBlock _ (hcondition _ hd) hlines hchildren
    exact ⟨_, by simp, hchild.lineEnds_children k⟩

/-- What is read as a program derives as one, within the levels of the reading. -/
theorem ReadsProgram.derives {d : Nat} {n : Node} (h : ReadsProgram d s n s') :
    ∃ w, s.Spans w s' ∧ ∀ levels, d ≤ levels → DerivesProgram levels (w ++ [.endOfInput]) := by
  obtain ⟨before, read, behind, -⟩ := h
  obtain ⟨j, hj⟩ := before.spans
  obtain ⟨w, hw, hblock⟩ := read.derives
  obtain ⟨k, hk⟩ := behind.spans
  exact ⟨_, (hj.trans hw).trans hk, fun levels hd => .intro j k (hblock levels hd).1⟩

end

end FormScript.Grammar
