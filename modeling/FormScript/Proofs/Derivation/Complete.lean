import FormScript.Proofs.Derivation.Sound
import FormScript.Proofs.Equality

/-!
# What is derived is read

A stream that spells a derived word, in front of anything that cannot extend it, is read by the rule
of the derivation, at a depth within the levels of the derivation. What may follow is said where it
matters: an operand must not be followed by an operator that its own rule would take, and line ends
are skipped up to a token of another kind. A form swallows one line end behind it, so the lines
behind a form are read with or without the line end in front (`BlockSymbol.Readable`).
-/

namespace FormScript.Grammar

open TokenStream (lineEnds)

section
variable {s s' : TokenStream} {w rest : List Token}

/-! ## Fields -/

/-- What derives as an item is read as one. -/
theorem DerivesItem.reads (h : DerivesItem w) (hs : s.Spells (w ++ rest)) :
    ∃ n s', ReadsItem s n s' ∧ s'.Spells rest := by
  cases h with
  | text content =>
    obtain ⟨s₁, take, hs₁⟩ := TokenStream.Spells.takes (w := rest) hs
    exact ⟨_, s₁.numbered, .text take, hs₁⟩
  | name name =>
    obtain ⟨s₁, take, hs₁⟩ := TokenStream.Spells.takes (w := rest) hs
    exact ⟨_, s₁.numbered, .name take, hs₁⟩

/-- An item does not start with a line end. -/
theorem DerivesItem.head_ne (h : DerivesItem w) : (w ++ rest).headD .endOfInput ≠ .newline := by
  cases h <;> simp

/-- The rest of an array behind an item and its line ends. -/
def ItemsBehind (s : TokenStream) (ns : List Node) (s' : TokenStream) : Prop :=
  ns = [] ∧ s.Takes (.mark .closeBracket) s' ∨ ∃ s₁, s.Takes (.mark .comma) s₁ ∧ ReadsItems s₁ ns s'

/-- An item is read in front of a word that is read as the rest of the array. -/
theorem DerivesItem.reads_before {u : List Token} {j k : Nat} (item : DerivesItem w)
    (hu : u.headD .endOfInput ≠ .newline)
    (hbehind : ∀ {s}, s.Spells u → ∃ ns s', ItemsBehind s ns s' ∧ s'.Spells rest)
    (hs : s.Spells (lineEnds j ++ (w ++ (lineEnds k ++ u)))) :
    ∃ ns s', ReadsItems s ns s' ∧ s'.Spells rest := by
  obtain ⟨s₁, skip, hs⟩ := hs.skips item.head_ne
  obtain ⟨n, s₂, item, hs⟩ := item.reads hs
  obtain ⟨s₃, skip', hs⟩ := hs.skips hu
  obtain ⟨ns, s', ⟨rfl, right⟩ | ⟨s₄, comma, more⟩, hs⟩ := hbehind hs
  · exact ⟨[n], s', .last skip item skip' right, hs⟩
  · exact ⟨n :: ns, s', .comma skip item skip' comma more, hs⟩

/-- More items start with a comma, so they do not start with a line end. -/
theorem DerivesItems.head_ne {u : List Token} (h : DerivesItems w)
    (hu : u.headD .endOfInput ≠ .newline) : (w ++ u).headD .endOfInput ≠ .newline := by
  cases h with
  | none => exact hu
  | comma => simp

/-- More items are read in front of a word that is read as the rest of the array. -/
theorem DerivesItems.reads_before {u : List Token} (h : DerivesItems w)
    (hu : u.headD .endOfInput ≠ .newline)
    (hbehind : ∀ {s}, s.Spells u → ∃ ns s', ItemsBehind s ns s' ∧ s'.Spells rest)
    (hs : s.Spells (w ++ u)) : ∃ ns s', ItemsBehind s ns s' ∧ s'.Spells rest := by
  induction h generalizing s with
  | none => exact hbehind hs
  | comma j k item more ih =>
    simp only [List.append_assoc, List.cons_append, List.nil_append] at hs
    obtain ⟨s₁, comma, hs⟩ := hs.takes
    obtain ⟨ns, s', read, hs⟩ := item.reads_before (more.head_ne hu) ih hs
    exact ⟨ns, s', .inr ⟨s₁, comma, read⟩, hs⟩

/-- A closing bracket is the rest of an array. -/
theorem itemsBehind_of_close (hs : s.Spells (.mark .closeBracket :: rest)) :
    ∃ ns s', ItemsBehind s ns s' ∧ s'.Spells rest := by
  obtain ⟨s', right, hs⟩ := hs.takes
  exact ⟨[], s', .inl ⟨rfl, right⟩, hs⟩

/-- Line ends and a closing bracket are read as no items. -/
theorem readsItems_of_close {k : Nat} (hs : s.Spells (lineEnds k ++ .mark .closeBracket :: rest)) :
    ∃ ns s', ReadsItems s ns s' ∧ s'.Spells rest := by
  obtain ⟨s₁, skip, hs⟩ := hs.skips (by simp)
  obtain ⟨s', right, hs⟩ := hs.takes
  exact ⟨[], s', .close skip right, hs⟩

/-- What derives between the brackets of an array is read as its items. -/
theorem DerivesArrayBody.reads {k : Nat} (h : DerivesArrayBody w)
    (hs : s.Spells (lineEnds k ++ w ++ .mark .closeBracket :: rest)) :
    ∃ ns s', ReadsItems s ns s' ∧ s'.Spells rest := by
  cases h with
  | empty => exact readsItems_of_close (by simpa using hs)
  | full j item more =>
    simp only [List.append_assoc] at hs
    exact item.reads_before (more.head_ne (by simp))
      (more.reads_before (by simp) itemsBehind_of_close) hs
  | trailing j l item more =>
    simp only [List.append_assoc, List.cons_append, List.nil_append] at hs
    refine item.reads_before (more.head_ne (by simp)) (more.reads_before (by simp) fun hs => ?_) hs
    obtain ⟨s₁, comma, hs⟩ := hs.takes
    obtain ⟨ns, s', read, hs⟩ := readsItems_of_close hs
    exact ⟨ns, s', .inr ⟨s₁, comma, read⟩, hs⟩

/-- What derives as a value is read as one. -/
theorem DerivesValue.reads (h : DerivesValue w) (hs : s.Spells (w ++ rest)) :
    ∃ value s', ReadsValue s value s' ∧ s'.Spells rest := by
  cases h with
  | text content =>
    obtain ⟨s₁, take, hs⟩ := TokenStream.Spells.takes (w := rest) hs
    exact ⟨_, s₁.numbered, .text take, hs⟩
  | boolean b =>
    obtain ⟨s₁, take, hs⟩ := TokenStream.Spells.takes (w := rest) hs
    exact ⟨_, s₁.numbered, .boolean take, hs⟩
  | integer n =>
    obtain ⟨s₁, take, hs⟩ := TokenStream.Spells.takes (w := rest) hs
    exact ⟨_, s₁.numbered, .integer take, hs⟩
  | array array =>
    obtain ⟨k, body⟩ := array
    simp only [List.append_assoc, List.cons_append, List.nil_append] at hs
    obtain ⟨s₁, left, hs⟩ := hs.takes
    obtain ⟨ns, s', read, hs⟩ := body.reads (by simpa using hs)
    exact ⟨_, s', .array left read, hs⟩

/-- What derives as a property is read as one, whatever properties came before it. -/
theorem DerivesProperty.reads (h : DerivesProperty w) (before : List Node)
    (hs : s.Spells (w ++ rest)) : ∃ after s', ReadsProperty before s after s' ∧ s'.Spells rest := by
  obtain ⟨key, value⟩ := h
  simp only [List.cons_append, List.nil_append] at hs
  obtain ⟨s₁, name, hs⟩ := hs.takes
  obtain ⟨s₂, colon, hs⟩ := hs.takes
  obtain ⟨value, s₃, read, hs⟩ := value.reads hs
  obtain ⟨after, s', put⟩ := exists_putProperty before s.current.line key value s₃
  refine ⟨after, s', .intro name colon read put, ?_⟩
  rcases putProperty_ok put with rfl | rfl
  · exact hs
  · exact hs

/-- A property starts with its key, so it does not start with a line end. -/
theorem DerivesProperty.head_ne (h : DerivesProperty w) :
    (w ++ rest).headD .endOfInput ≠ .newline := by
  cases h
  simp

/-- The rest of a field behind a property. -/
def PropertiesBehind (now : List Node) (s : TokenStream) (after : List Node)
    (s' : TokenStream) : Prop :=
  (∃ s₁, s.Takes (.mark .comma) s₁ ∧ ReadsProperties now s₁ after s') ∨
    (s.current.token = .newline ∨ s.current.token = .mark .closeBrace) ∧
    ReadsProperties now s after s'

/-- A property is read in front of a word that is read as the rest of the field. -/
theorem DerivesProperty.reads_before {u : List Token} {k : Nat} (h : DerivesProperty w)
    (hbehind : ∀ {now s}, s.Spells u → ∃ after s', PropertiesBehind now s after s' ∧ s'.Spells rest)
    (before : List Node) (hs : s.Spells (lineEnds k ++ (w ++ u))) :
    ∃ after s', ReadsProperties before s after s' ∧ s'.Spells rest := by
  obtain ⟨s₁, skip, hs⟩ := hs.skips h.head_ne
  obtain ⟨now, s₂, property, hs⟩ := h.reads before hs
  obtain ⟨after, s', ⟨s₃, comma, more⟩ | ⟨ends, more⟩, hs⟩ := hbehind hs
  · exact ⟨after, s', .comma skip property comma more, hs⟩
  · exact ⟨after, s', .line skip property ends more, hs⟩

/-- More properties are read in front of a word that is read as the rest of the field. -/
theorem DerivesProperties.reads_before {u : List Token} (h : DerivesProperties w)
    (hbehind : ∀ {now s}, s.Spells u → ∃ after s', PropertiesBehind now s after s' ∧ s'.Spells rest)
    (now : List Node) (hs : s.Spells (w ++ u)) :
    ∃ after s', PropertiesBehind now s after s' ∧ s'.Spells rest := by
  induction h generalizing now s with
  | none => exact hbehind hs
  | comma k property more ih =>
    simp only [List.append_assoc, List.cons_append, List.nil_append] at hs
    obtain ⟨s₁, comma, hs⟩ := hs.takes
    obtain ⟨after, s', read, hs⟩ := property.reads_before (ih _) now hs
    exact ⟨after, s', .inl ⟨s₁, comma, read⟩, hs⟩
  | line k property more ih =>
    simp only [List.append_assoc, List.cons_append, List.nil_append] at hs
    have hnewline : s.current.token = .newline := hs.current_eq
    obtain ⟨after, s', read, hs⟩ := property.reads_before (k := k + 1) (ih _) now hs
    exact ⟨after, s', .inr ⟨.inl hnewline, read⟩, hs⟩

/-- Line ends and a closing brace are read as no more properties. -/
theorem readsProperties_of_close {k : Nat} (now : List Node)
    (hs : s.Spells (lineEnds k ++ .mark .closeBrace :: rest)) :
    ∃ s', ReadsProperties now s now s' ∧ s'.Spells rest := by
  obtain ⟨s₁, skip, hs⟩ := hs.skips (by simp)
  obtain ⟨s', right, hs⟩ := hs.takes
  exact ⟨s', .close skip right, hs⟩

/-- What derives between the braces of a field is read as its properties. -/
theorem DerivesFieldBody.reads {k : Nat} (h : DerivesFieldBody w)
    (hs : s.Spells (lineEnds k ++ w ++ .mark .closeBrace :: rest)) :
    ∃ after s', ReadsProperties [] s after s' ∧ s'.Spells rest := by
  cases h with
  | empty =>
    obtain ⟨s', read, hs⟩ := readsProperties_of_close [] (by simpa using hs)
    exact ⟨[], s', read, hs⟩
  | full j property more =>
    simp only [List.append_assoc] at hs
    refine property.reads_before (more.reads_before (fun {now s} hs => ?_) _) [] hs
    have hcurrent := hs.current_eq
    obtain ⟨s', read, hs⟩ := readsProperties_of_close now hs
    refine ⟨now, s', .inr ⟨?_, read⟩, hs⟩
    cases j with
    | zero => exact .inr hcurrent
    | succ j => exact .inl hcurrent
  | trailing j property more =>
    simp only [List.append_assoc, List.cons_append, List.nil_append] at hs
    refine property.reads_before (more.reads_before (fun {now s} hs => ?_) _) [] hs
    obtain ⟨s₁, comma, hs⟩ := hs.takes
    obtain ⟨s', read, hs⟩ := readsProperties_of_close now hs
    exact ⟨now, s', .inl ⟨s₁, comma, read⟩, hs⟩

/-- What derives as a field is read as one. -/
theorem DerivesField.reads (h : DerivesField w) (hs : s.Spells (w ++ rest)) :
    ∃ n s', ReadsField s n s' ∧ s'.Spells rest := by
  obtain ⟨kind, name, k, body⟩ := h
  simp only [List.append_assoc, List.cons_append, List.nil_append] at hs
  obtain ⟨s₁, word, hs⟩ := hs.takes
  obtain ⟨s₂, title, hs⟩ := hs.takes
  obtain ⟨s₃, left, hs⟩ := hs.takes
  obtain ⟨properties, s₄, read, hs⟩ := body.reads (by simpa using hs)
  exact ⟨_, s₄.numbered, .intro word title left read, hs⟩

/-! ## Expressions -/

/-- A part of an expression can be read wherever a stream spells it in front of a word that does not
extend it. -/
def ExpressionSymbol.Readable (levels : Nat) (w : List Token) : ExpressionSymbol → Prop
  | factor => ∀ {s rest}, s.Spells (w ++ rest) →
    ∃ d ≤ levels, ∃ n s', ReadsExpression .factor d s n s' ∧ s'.Spells rest
  | tiers ts => ∀ {s rest}, s.Spells (w ++ rest) →
    (∀ t ∈ ts, t.operator? (rest.headD .endOfInput) = none) →
    ∃ d ≤ levels, ∃ n s', ReadsExpression (.tiers ts) d s n s' ∧ s'.Spells rest
  | chain t => ∀ {s rest} left, s.Spells (w ++ rest) →
    (∀ u ∈ t :: t.tighter, u.operator? (rest.headD .endOfInput) = none) →
    ∃ d ≤ levels, ∃ n s', ReadsExpression (.chain t left) d s n s' ∧ s'.Spells rest

/-- No tighter operator stands behind an operand in a chain. -/
theorem DerivesExpression.head_chain {levels : Nat} {t : Tier}
    (h : DerivesExpression levels (.chain t) w)
    (hrest : ∀ u ∈ t.tighter, u.operator? (rest.headD .endOfInput) = none) :
    ∀ u ∈ t.tighter, u.operator? ((w ++ rest).headD .endOfInput) = none := by
  cases h with
  | stop => exact hrest
  | more hsign => exact fun u hu => Tier.operator?_of_tighter hsign hu

/-- What derives as a part of an expression can be read as this part. -/
theorem DerivesExpression.readable {levels : Nat} {symbol : ExpressionSymbol}
    (h : DerivesExpression levels symbol w) : symbol.Readable levels w := by
  induction h with
  | integer levels n =>
    intro s rest hs
    obtain ⟨s₁, take, hs⟩ := TokenStream.Spells.takes (w := rest) hs
    exact ⟨0, Nat.zero_le _, _, s₁.numbered, .int take, hs⟩
  | text levels content =>
    intro s rest hs
    obtain ⟨s₁, take, hs⟩ := TokenStream.Spells.takes (w := rest) hs
    exact ⟨0, Nat.zero_le _, _, s₁.numbered, .str take, hs⟩
  | boolean levels b =>
    intro s rest hs
    obtain ⟨s₁, take, hs⟩ := TokenStream.Spells.takes (w := rest) hs
    exact ⟨0, Nat.zero_le _, _, s₁.numbered, .bool take, hs⟩
  | name levels name =>
    intro s rest hs
    obtain ⟨s₁, take, hs⟩ := TokenStream.Spells.takes (w := rest) hs
    exact ⟨0, Nat.zero_le _, _, s₁.numbered, .ident take, hs⟩
  | scan levels =>
    intro s rest hs
    obtain ⟨s₁, word, hs⟩ := hs.takes
    obtain ⟨s₂, left, hs⟩ := hs.takes
    obtain ⟨s₃, right, hs⟩ := hs.takes
    exact ⟨0, Nat.zero_le _, _, s₃.numbered, .scan word left right, hs⟩
  | parens _ ih =>
    intro s rest hs
    simp only [List.append_assoc, List.cons_append, List.nil_append] at hs
    obtain ⟨s₁, left, hs⟩ := TokenStream.Spells.takes (s := s.deeper) hs
    obtain ⟨d, hd, n, s₂, inner, hs⟩ := ih hs fun t _ => by cases t <;> rfl
    obtain ⟨s₃, right, hs⟩ := hs.takes
    exact ⟨d + 1, Nat.succ_le_succ hd, n, s₃.shallower, .parens left inner right, hs⟩
  | signed hsign _ ih =>
    intro s rest hs
    obtain ⟨op, hop⟩ := Option.isSome_iff_exists.1 (prefixOperator?_isSome_iff.2 ⟨_, hsign, rfl⟩)
    obtain ⟨s₁, take, hs⟩ := TokenStream.Spells.takes (s := s.deeper) hs
    obtain ⟨d, hd, n, s₂, operand, hs⟩ := ih hs
    exact ⟨d + 1, Nat.succ_le_succ hd, _, s₂.shallower.numbered, .prefixed hop take operand, hs⟩
  | atom _ ih =>
    intro s rest hs _
    obtain ⟨d, hd, n, s', factor, hs⟩ := ih hs
    exact ⟨d, hd, n, s', .atom factor, hs⟩
  | tier _ operators ih ih' =>
    intro s rest hs hrest
    rw [List.append_assoc] at hs
    have htighter := operators.head_chain fun u hu => hrest u (.tail _ hu)
    obtain ⟨d, hd, first, s₁, operand, hs⟩ := ih hs htighter
    obtain ⟨d', hd', n, s', operators, hs⟩ := ih' first hs hrest
    exact ⟨max d d', Nat.max_le.2 ⟨hd, hd'⟩, n, s', .tier operand operators, hs⟩
  | stop levels t =>
    intro s rest left hs hrest
    refine ⟨0, Nat.zero_le _, left, s, .stop ?_, hs⟩
    rw [hs.current_eq]
    exact hrest t (.head _)
  | more hsign _ operators ih ih' =>
    intro s rest left hs hrest
    simp only [List.append_assoc, List.cons_append, List.nil_append] at hs
    obtain ⟨op, hop⟩ := Option.isSome_iff_exists.1 (Tier.operator?_isSome_iff.2 ⟨_, hsign, rfl⟩)
    have htighter := operators.head_chain fun u hu => hrest u (.tail _ hu)
    obtain ⟨s₁, take, hs⟩ := TokenStream.Spells.takes (s := s.deeper) hs
    obtain ⟨d, hd, right, s₂, operand, hs⟩ := ih hs htighter
    obtain ⟨d', hd', n, s₃, operators, hs⟩ := ih' (s := s₂.numbered)
      (.binary (s₂.originAt s.current.line) op left right) hs hrest
    exact ⟨max d d' + 1, Nat.succ_le_succ (Nat.max_le.2 ⟨hd, hd'⟩), n, s₃.shallower,
      .more hop take operand operators, hs⟩

/-- A whole expression is read in front of a token that is no infix operator. -/
theorem DerivesExpression.reads {levels : Nat} (h : DerivesExpression levels (.tiers Tier.all) w)
    (hs : s.Spells (w ++ rest)) (hrest : ∀ t : Tier, t.operator? (rest.headD .endOfInput) = none) :
    ∃ d ≤ levels, ∃ n s', ReadsExpression (.tiers Tier.all) d s n s' ∧ s'.Spells rest :=
  h.readable hs fun t _ => hrest t

/-! ## Blocks -/

/-- The lines of a block can be read wherever a stream spells them in front of a closing brace. -/
def LinesReadable (levels : Nat) (w : List Token) : Prop :=
  ∀ {s rest}, s.Spells (w ++ .mark .closeBrace :: rest) →
    ∃ d ≤ levels, ∃ ns s', ReadsBlock .items d s ns s' ∧ s'.Spells rest

/-- A part of a program can be read wherever a stream spells it. A statement may take a line end
behind it, so lines that start with a line end can be read without it as well. -/
def BlockSymbol.Readable (levels : Nat) (w : List Token) : BlockSymbol → Prop
  | block => ∀ {s rest}, s.Spells (w ++ rest) →
    ∃ d ≤ levels, ∃ n s', ReadsBlock .block d s [n] s' ∧ s'.Spells rest
  | lines => LinesReadable levels w ∧ ∀ w', w = .newline :: w' → LinesReadable levels w'
  | statement => ∀ {s rest}, s.Spells (w ++ rest) →
    ∃ d ≤ levels, ∃ n s', ReadsBlock .statement d s [n] s' ∧
      (s'.Spells rest ∨ ∃ rest', rest = .newline :: rest' ∧ s'.Spells rest')
  | assignment => ∀ {s rest}, s.Spells (w ++ rest) →
    ∃ d ≤ levels, ∃ n s', ReadsBlock .statement d s [n] s' ∧ FormContainer.loop.admits n = true ∧
      s'.Spells rest
  | form => ∀ {s rest}, s.Spells (w ++ rest) →
    ∃ d ≤ levels, ∃ n s', ReadsBlock .form d s [n] s' ∧ s'.Spells rest
  | children => ∀ {s rest}, s.Spells (w ++ .mark .closeBrace :: rest) →
    ∃ d ≤ levels, ∃ ns s', ReadsBlock .children d s ns s' ∧ s'.Spells rest
  | formLines container => ∀ {s rest}, s.Spells (w ++ .mark .closeBrace :: rest) →
    ∃ d ≤ levels, ∃ ns s', ReadsBlock .items d s ns s' ∧ (∀ n ∈ ns, container.admits n = true) ∧
      s'.Spells rest

/-- A statement that starts with a line end is that line end. -/
theorem DerivesBlock.eq_blank {levels : Nat} {w' v : List Token}
    (h : DerivesBlock levels .statement w) (heq : w ++ w' = .newline :: v) : w = [.newline] := by
  cases h with
  | formBare form | formLine form =>
    cases form
    simp at heq
  | assign assignment =>
    cases assignment
    simp at heq
  | blank => rfl
  | print | declare | declareInit | loop | branch | branchElse => simp at heq

/-- No block starts with an infix operator. -/
theorem DerivesBlock.head_block {levels : Nat} (h : DerivesBlock levels .block w) (t : Tier) :
    t.operator? ((w ++ rest).headD .endOfInput) = none := by
  cases h
  cases t <;> rfl

/-- A line end in front of the children of a form changes nothing. -/
theorem ReadsBlock.children_of_newline {s₁ : TokenStream} {d : Nat} {ns : List Node}
    (h : ReadsBlock .children d s₁ ns s') (newline : s.Takes .newline s₁) :
    ReadsBlock .children d s ns s' := by
  cases h with
  | formClose skip right => exact .formClose (.more newline skip) right
  | formField skip first rest => exact .formField (.more newline skip) first rest
  | formBlock skip word condition read admitted rest =>
    exact .formBlock (.more newline skip) word condition read admitted rest

/-- What derives as a part of a program can be read as this part. -/
theorem DerivesBlock.readable {levels : Nat} {symbol : BlockSymbol}
    (h : DerivesBlock levels symbol w) : symbol.Readable levels w := by
  induction h with
  | block _ ih =>
    intro s rest hs
    simp only [List.append_assoc, List.cons_append, List.nil_append] at hs
    obtain ⟨s₁, left, hs⟩ := TokenStream.Spells.takes (s := s.deeper) hs
    obtain ⟨s₂, newline, hs⟩ := hs.takes
    obtain ⟨d, hd, body, s₃, read, hs⟩ := ih.1 hs
    exact ⟨d + 1, Nat.succ_le_succ hd, _, s₃.shallower.numbered, .block left newline read, hs⟩
  | noLine levels =>
    refine ⟨fun {s rest} hs => ?_, nofun⟩
    obtain ⟨s', right, hs⟩ := hs.takes
    exact ⟨0, Nat.zero_le _, [], s', .close right, hs⟩
  | statement first _ ih ih' =>
    refine ⟨fun {s rest} hs => ?_, fun v heq => ?_⟩
    · rw [List.append_assoc] at hs
      obtain ⟨d, hd, n, s₁, read, hs | ⟨rest', heq, hs⟩⟩ := ih hs
      · obtain ⟨d', hd', ns, s', read', hs⟩ := ih'.1 hs
        exact ⟨max d d', Nat.max_le.2 ⟨hd, hd'⟩, n :: ns, s', .statement read read', hs⟩
      · -- The statement took the line end in front of the lines behind it.
        rcases List.append_eq_cons_iff.1 heq with ⟨-, hnil⟩ | ⟨v, rfl, rfl⟩
        · simp at hnil
        · obtain ⟨d', hd', ns, s', read', hs⟩ := ih'.2 v rfl hs
          exact ⟨max d d', Nat.max_le.2 ⟨hd, hd'⟩, n :: ns, s', .statement read read', hs⟩
    · obtain rfl := first.eq_blank heq
      obtain rfl := (List.cons.inj heq).2
      exact ih'.1
  | field first _ ih =>
    refine ⟨fun {s rest} hs => ?_, fun v heq => ?_⟩
    · rw [List.append_assoc] at hs
      obtain ⟨n, s₁, read, hs⟩ := first.reads hs
      obtain ⟨d, hd, ns, s', read', hs⟩ := ih.1 hs
      exact ⟨d, hd, n :: ns, s', .field read read', hs⟩
    · cases first
      simp at heq
  | formBare _ ih =>
    intro s rest hs
    obtain ⟨d, hd, n, s₁, read, hs⟩ := ih hs
    cases rest with
    | nil => exact ⟨d, hd, n, s₁, .formBare read (by simp [hs.current_eq]), .inl hs⟩
    | cons token rest =>
      by_cases htoken : token = .newline
      · subst htoken
        obtain ⟨s', newline, hs⟩ := hs.takes
        exact ⟨d, hd, n, s', .formLine read newline, .inr ⟨rest, rfl, hs⟩⟩
      · exact ⟨d, hd, n, s₁, .formBare read (by simpa [hs.current_eq] using htoken), .inl hs⟩
  | formLine _ ih =>
    intro s rest hs
    rw [List.append_assoc] at hs
    obtain ⟨d, hd, n, s₁, read, hs⟩ := ih hs
    obtain ⟨s', newline, hs⟩ := hs.takes
    exact ⟨d, hd, n, s', .formLine read newline, .inl hs⟩
  | print expr =>
    intro s rest hs
    simp only [List.append_assoc, List.cons_append, List.nil_append] at hs
    obtain ⟨s₁, word, hs⟩ := hs.takes
    obtain ⟨s₂, left, hs⟩ := hs.takes
    obtain ⟨d, hd, e, s₃, expr, hs⟩ := expr.reads hs fun t => by cases t <;> rfl
    obtain ⟨s₄, right, hs⟩ := hs.takes
    obtain ⟨s₅, newline, hs⟩ := hs.takes
    exact ⟨d, hd, _, s₅.numbered, .print word left expr right newline, .inl hs⟩
  | declare levels name type =>
    intro s rest hs
    obtain ⟨s₁, word, hs⟩ := hs.takes
    obtain ⟨s₂, title, hs⟩ := hs.takes
    obtain ⟨s₃, sort, hs⟩ := hs.takes
    obtain ⟨s₄, newline, hs⟩ := TokenStream.Spells.takes (w := rest) hs
    exact ⟨0, Nat.zero_le _, _, s₄.numbered, .declare word title sort newline, .inl hs⟩
  | declareInit name type init =>
    intro s rest hs
    simp only [List.append_assoc, List.cons_append, List.nil_append] at hs
    obtain ⟨s₁, word, hs⟩ := hs.takes
    obtain ⟨s₂, title, hs⟩ := hs.takes
    obtain ⟨s₃, sort, hs⟩ := hs.takes
    obtain ⟨s₄, sign, hs⟩ := hs.takes
    obtain ⟨d, hd, e, s₅, init, hs⟩ := init.reads hs fun t => by cases t <;> rfl
    obtain ⟨s₆, newline, hs⟩ := hs.takes
    exact ⟨d, hd, _, s₆.numbered, .declareInit word title sort sign init newline, .inl hs⟩
  | assign _ ih =>
    intro s rest hs
    obtain ⟨d, hd, n, s', read, -, hs⟩ := ih hs
    exact ⟨d, hd, n, s', read, .inl hs⟩
  | loop condition body ih =>
    intro s rest hs
    simp only [List.append_assoc, List.cons_append, List.nil_append] at hs
    obtain ⟨s₁, word, hs⟩ := hs.takes
    obtain ⟨d, hd, e, s₂, condition, hs⟩ := condition.reads hs body.head_block
    obtain ⟨d', hd', n, s₃, read, hs⟩ := ih hs
    obtain ⟨s₄, newline, hs⟩ := hs.takes
    exact ⟨max d d', Nat.max_le.2 ⟨hd, hd'⟩, _, s₄.numbered,
      .loop word condition read newline, .inl hs⟩
  | branch condition positive ih =>
    intro s rest hs
    simp only [List.append_assoc, List.cons_append, List.nil_append] at hs
    obtain ⟨s₁, word, hs⟩ := hs.takes
    obtain ⟨d, hd, e, s₂, condition, hs⟩ := condition.reads hs positive.head_block
    obtain ⟨d', hd', n, s₃, read, hs⟩ := ih hs
    obtain ⟨s₄, newline, hs⟩ := hs.takes
    exact ⟨max d d', Nat.max_le.2 ⟨hd, hd'⟩, _, s₄.numbered, .branch word condition read newline,
      .inl hs⟩
  | branchElse condition positive _ ih ih' =>
    intro s rest hs
    simp only [List.append_assoc, List.cons_append, List.nil_append] at hs
    obtain ⟨s₁, word, hs⟩ := hs.takes
    obtain ⟨d, hd, e, s₂, condition, hs⟩ := condition.reads hs positive.head_block
    obtain ⟨d', hd', n, s₃, read, hs⟩ := ih hs
    obtain ⟨s₄, other, hs⟩ := hs.takes
    obtain ⟨d'', hd'', n', s₅, read', hs⟩ := ih' hs
    obtain ⟨s₆, newline, hs⟩ := hs.takes
    exact ⟨max d (max d' d''), Nat.max_le.2 ⟨hd, Nat.max_le.2 ⟨hd', hd''⟩⟩, _, s₆.numbered,
      .branchElse word condition read other read' newline, .inl hs⟩
  | blank levels =>
    intro s rest hs
    obtain ⟨s₁, newline, hs⟩ := TokenStream.Spells.takes (w := rest) hs
    exact ⟨0, Nat.zero_le _, _, s₁.numbered, .blank newline, .inl hs⟩
  | assignment name value =>
    intro s rest hs
    simp only [List.append_assoc, List.cons_append, List.nil_append] at hs
    obtain ⟨s₁, title, hs⟩ := hs.takes
    obtain ⟨s₂, sign, hs⟩ := TokenStream.Spells.takes (s := s₁.numbered) hs
    obtain ⟨d, hd, e, s₃, value, hs⟩ := value.reads hs fun t => by cases t <;> rfl
    obtain ⟨s₄, newline, hs⟩ := hs.takes
    exact ⟨d, hd, _, s₄.numbered, .assign title sign value newline, rfl, hs⟩
  | form name _ ih =>
    intro s rest hs
    simp only [List.append_assoc, List.cons_append, List.nil_append] at hs
    obtain ⟨s₁, word, hs⟩ := hs.takes
    obtain ⟨s₂, title, hs⟩ := hs.takes
    obtain ⟨s₃, left, hs⟩ := hs.takes
    obtain ⟨d, hd, body, s₄, read, hs⟩ := ih hs
    exact ⟨d, hd, _, s₄.numbered, .form word title left read, hs⟩
  | noChild levels =>
    intro s rest hs
    obtain ⟨s', right, hs⟩ := hs.takes
    exact ⟨0, Nat.zero_le _, [], s', .formClose (.done (by simp [right.1])) right, hs⟩
  | childNewline _ ih =>
    intro s rest hs
    obtain ⟨s₁, newline, hs⟩ := hs.takes
    obtain ⟨d, hd, ns, s', read, hs⟩ := ih hs
    exact ⟨d, hd, ns, s', read.children_of_newline newline, hs⟩
  | childField first _ ih =>
    intro s rest hs
    rw [List.append_assoc] at hs
    obtain ⟨n, s₁, field, hs⟩ := first.reads hs
    obtain ⟨kind, htoken⟩ := field.first_token
    obtain ⟨d, hd, ns, s', read, hs⟩ := ih hs
    exact ⟨d, hd, n :: ns, s', .formField (.done (by simp [htoken])) field read, hs⟩
  | childBlock container condition _ _ ih ih' =>
    intro s rest hs
    simp only [List.append_assoc, List.cons_append, List.nil_append] at hs
    obtain ⟨s₁, word, hs⟩ := hs.takes
    obtain ⟨d, hd, e, s₂, condition, hs⟩ := condition.reads hs fun t => by cases t <;> rfl
    obtain ⟨s₃, left, hs⟩ := TokenStream.Spells.takes (s := s₂.deeper) hs
    obtain ⟨s₄, newline, hs⟩ := hs.takes
    obtain ⟨d', hd', body, s₅, read, admitted, hs⟩ := ih hs
    obtain ⟨d'', hd'', ns, s', read', hs⟩ := ih' (s := s₅.shallower.numbered.numbered) hs
    have hmax : max (max d (d' + 1)) d'' ≤ _ :=
      Nat.max_le.2 ⟨Nat.max_le.2 ⟨hd, Nat.succ_le_succ hd'⟩, hd''⟩
    exact ⟨_, hmax, _, s', .formBlock (.done (by simp [word.1])) word condition
      (.block left newline read) admitted read', hs⟩
  | noFormLine levels container =>
    intro s rest hs
    obtain ⟨s', right, hs⟩ := hs.takes
    exact ⟨0, Nat.zero_le _, [], s', .close right, by simp, hs⟩
  | formNewline _ ih =>
    intro s rest hs
    obtain ⟨s₁, newline, hs⟩ := hs.takes
    obtain ⟨d, hd, ns, s', read, admitted, hs⟩ := ih (s := s₁.numbered) hs
    exact ⟨max 0 d, by simpa using hd, _, s', .statement (.blank newline) read,
      by simpa [FormContainer.admits] using admitted, hs⟩
  | formField first _ ih =>
    intro s rest hs
    rw [List.append_assoc] at hs
    obtain ⟨n, s₁, field, hs⟩ := first.reads hs
    obtain ⟨d, hd, ns, s', read, admitted, hs⟩ := ih hs
    refine ⟨d, hd, n :: ns, s', .field field read, ?_, hs⟩
    cases field
    simpa [FormContainer.admits] using admitted
  | formAssignment _ _ ih ih' =>
    intro s rest hs
    rw [List.append_assoc] at hs
    obtain ⟨d, hd, n, s₁, read, hn, hs⟩ := ih hs
    obtain ⟨d', hd', ns, s', read', admitted, hs⟩ := ih' hs
    exact ⟨max d d', Nat.max_le.2 ⟨hd, hd'⟩, n :: ns, s', .statement read read',
      List.forall_mem_cons.2 ⟨hn, admitted⟩, hs⟩

/-- What derives as a program is read as one, within as many levels. -/
theorem DerivesProgram.reads {levels : Nat} (h : DerivesProgram levels (w ++ [.endOfInput]))
    (hs : s.Spells w) : ∃ d ≤ levels, ∃ n s', ReadsProgram d s n s' := by
  generalize hw : w ++ [Token.endOfInput] = v at h
  obtain ⟨j, k, block⟩ := h
  obtain rfl := List.append_cancel_right hw
  rw [List.append_assoc] at hs
  obtain ⟨s₁, before, hs⟩ := hs.skips (by cases block; simp)
  obtain ⟨d, hd, n, s₂, read, hs⟩ := block.readable hs
  obtain ⟨s', behind, hs⟩ := TokenStream.Spells.skips (w := []) (by simpa using hs) (by simp)
  exact ⟨d, hd, n, s', .intro before read behind hs.current_eq⟩

end

/-- The tokens of an accepted text are a program. -/
theorem derives_of_parse {source : String} {root : Node} (h : parse source = .ok root) :
    ∃ lexemes, tokenize source = .ok lexemes ∧
      DerivesProgram maxDepth (lexemes.map Lexeme.token) := by
  obtain ⟨s, s', d, hstream, hd, read⟩ := parse_ok h
  obtain ⟨w, hspan, hderives⟩ := read.derives
  have hend : s'.current.token = .endOfInput := by
    obtain ⟨-, -, -, ends⟩ := read
    exact ends
  have hahead := TokenStream.ahead_eq_nil_of_spans hstream hspan hend
  obtain ⟨lexemes, hpending, rfl⟩ := hspan
  refine ⟨lexemes ++ [s'.current], ?_, ?_⟩
  · rw [tokenize_eq_ok_iff, ← (TokenStream.ofText_ok hstream).1, hpending,
      TokenStream.pending, hahead, List.map_append]
    rfl
  · rw [List.map_append, List.map_singleton, hend]
    exact hderives maxDepth hd

/-- A text whose tokens are a program has a reading. -/
theorem reads_of_derives {source : String} {lexemes : List Lexeme} {levels : Nat}
    (h : tokenize source = .ok lexemes)
    (hderives : DerivesProgram levels (lexemes.map Lexeme.token)) :
    ∃ s d n s', TokenStream.ofText (Text.stripComments source) = .ok s ∧ d ≤ levels ∧
      ReadsProgram d s n s' := by
  obtain ⟨s, w, hstream, hs, hw⟩ := TokenStream.ofText_of_tokenize h
  rw [hw] at hderives
  obtain ⟨d, hd, n, s', read⟩ := hderives.reads hs
  exact ⟨s, d, n, s', hstream, hd, read⟩

/-- The grammar is what the parser accepts. A source text has a tree exactly if its tokens are a
program within the deepest nesting; a text whose tokens are a program of deeper nesting fails for
that. -/
theorem parse_accepts_iff_derives (source : String) :
    ((∃ root, parse source = .ok root) ↔ ∃ lexemes, tokenize source = .ok lexemes ∧
      DerivesProgram maxDepth (lexemes.map Lexeme.token)) ∧
    ∀ lexemes levels, tokenize source = .ok lexemes →
      DerivesProgram levels (lexemes.map Lexeme.token) → (∃ root, parse source = .ok root) ∨
        ∃ line construct,
          parse source = .error (.grammar ⟨line, .nestingTooDeep construct maxDepth⟩) := by
  refine ⟨⟨fun ⟨root, h⟩ => derives_of_parse h, ?_⟩, ?_⟩
  · rintro ⟨lexemes, h, hderives⟩
    obtain ⟨s, d, n, s', hstream, hd, read⟩ := reads_of_derives h hderives
    exact ⟨n, read.parse_eq hstream hd⟩
  · intro lexemes levels h hderives
    obtain ⟨s, d, n, s', hstream, -, read⟩ := reads_of_derives h hderives
    by_cases hd : d ≤ maxDepth
    · exact .inl ⟨n, read.parse_eq hstream hd⟩
    · exact .inr (read.parse_tooDeep hstream (Nat.lt_of_not_le hd))

/-- An empty form and an empty line: the first line end behind the form is taken with the form or
stands for a line of its own. -/
theorem parse_accepts_form_and_blank :
    ∃ lexemes, tokenize "\x7b\nform f \x7b\x7d\n\n\x7d" = .ok lexemes ∧
      DerivesProgram 1 (lexemes.map Lexeme.token) ∧
      ((∃ root, parse "\x7b\nform f \x7b\x7d\n\n\x7d" = .ok root) ∨
        ∃ line construct, parse "\x7b\nform f \x7b\x7d\n\n\x7d" =
          .error (.grammar ⟨line, .nestingTooDeep construct maxDepth⟩)) := by
  have htokens : tokenize "\x7b\nform f \x7b\x7d\n\n\x7d" = .ok
      [⟨.mark .openBrace, 1, 0, 1⟩, ⟨.newline, 1, 1, 2⟩, ⟨.keyword .form, 2, 2, 6⟩,
        ⟨.identifier "f", 2, 7, 8⟩, ⟨.mark .openBrace, 2, 9, 10⟩, ⟨.mark .closeBrace, 2, 10, 11⟩,
        ⟨.newline, 2, 11, 12⟩, ⟨.newline, 3, 12, 13⟩, ⟨.mark .closeBrace, 4, 13, 14⟩,
        ⟨.endOfInput, 4, 14, 14⟩] := by
    decide +kernel
  have hform : DerivesBlock 0 .statement
      [.keyword .form, .identifier "f", .mark .openBrace, .mark .closeBrace] :=
    .formBare (.form "f" (.noChild 0))
  have hlines := DerivesBlock.statement hform
    (.statement (.blank 0) (.statement (.blank 0) (.noLine 0)))
  have hderives := DerivesProgram.intro 0 0 (.block hlines)
  exact ⟨_, htokens, hderives, (parse_accepts_iff_derives _).2 _ 1 htokens hderives⟩

end FormScript.Grammar
