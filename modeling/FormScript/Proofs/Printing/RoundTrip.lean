import FormScript.Proofs.Printing.Tree

/-!
# Parsing undoes printing

A stream that spells a printing of a tree, in front of a word that does not extend it, is read as
the same tree up to the numbers and lines of its nodes (`Node.erase`), at the depth of the printing.
For a chain of operators the induction follows the printing, which puts the last operator outermost,
while the reading goes on from the left operand; so the statement for a chain is about what a
reading of the operators that follow makes of the whole (`Layout.Readable`).
-/

namespace FormScript

namespace Node

mutual

/-- A tree without the numbers and lines of its nodes. -/
def erase : Node → Node
  | int _ k => int default k
  | str _ content => str default content
  | bool _ b => bool default b
  | ident _ name => ident default name
  | unary _ op operand => unary default op operand.erase
  | binary _ op left right => binary default op left.erase right.erase
  | block _ body => block default (eraseAll body)
  | assign _ target value => assign default target.erase value.erase
  | declare _ name type none => declare default name type none
  | declare _ name type (some init) => declare default name type (some init.erase)
  | branch _ condition positive none => branch default condition.erase positive.erase none
  | branch _ condition positive (some negative) =>
    branch default condition.erase positive.erase (some negative.erase)
  | loop _ condition body => loop default condition.erase body.erase
  | print _ expr => print default expr.erase
  | scan _ => scan default
  | field _ kind name properties => field default kind name (eraseAll properties)
  | scalar _ key value => scalar default key value.erase
  | array _ key items => array default key (eraseAll items)
  | form _ name body => form default name (eraseAll body)
  | blank _ => blank default

/-- `erase` for neighbours. -/
def eraseAll : List Node → List Node
  | [] => []
  | n :: ns => n.erase :: eraseAll ns

end

/-- Neighbours lose their numbers and lines one by one. -/
theorem eraseAll_eq_map (ns : List Node) : eraseAll ns = ns.map erase := by
  induction ns with
  | nil => rfl
  | cons n ns ih => rw [eraseAll, ih, List.map_cons]

end Node

namespace Grammar

open Node (erase eraseAll eraseAll_eq_map)

/-- The key of a property does not depend on numbers and lines. -/
theorem propertyKey?_erase (n : Node) : propertyKey? n.erase = propertyKey? n := by
  cases n with
  | declare _ _ _ init => cases init <;> rfl
  | branch _ _ _ negative => cases negative <;> rfl
  | _ => rfl

/-- Whether a form admits a line does not depend on numbers and lines. -/
theorem FormContainer.admits_erase (container : FormContainer) (n : Node) :
    container.admits n.erase = container.admits n := by
  cases n with
  | declare _ _ _ init => cases init <;> rfl
  | branch _ _ _ negative => cases negative <;> rfl
  | _ => rfl

/-- A form admits lines that differ in their numbers and lines only from lines that it admits. -/
theorem FormContainer.admits_of_map_erase_eq {container : FormContainer} {ns ns' : List Node}
    (heq : ns'.map erase = ns.map erase) (h : ∀ n ∈ ns, container.admits n = true) :
    ∀ n ∈ ns', container.admits n = true := by
  have hmap : ∀ n ∈ ns'.map erase, container.admits n = true := by
    rw [heq]
    simpa [admits_erase] using h
  simpa [admits_erase] using hmap

/-- The node of a block of a form loses its numbers and lines part by part. -/
theorem FormContainer.erase_toNode (container : FormContainer) (o : Origin) (e body : Node) :
    (container.toNode o e body).erase = container.toNode default e.erase body.erase := by
  cases container <;> rfl

section
variable {s s' : TokenStream} {w rest : List Token}

/-! ## Expressions -/

/-- A literal is read back as a factor. -/
theorem PrintsLiteral.readsFactor {n : Node} {token : Token} (h : PrintsLiteral n token)
    (hs : s.Spells (token :: rest)) :
    ∃ n' s', ReadsExpression .factor 0 s n' s' ∧ n'.erase = n.erase ∧ s'.Spells rest := by
  obtain ⟨s₁, take, hs₁⟩ := hs.takes
  cases h with
  | int o k => exact ⟨_, s₁.numbered, .int take, rfl, hs₁⟩
  | str o content => exact ⟨_, s₁.numbered, .str take, rfl, hs₁⟩
  | bool o b => exact ⟨_, s₁.numbered, .bool take, rfl, hs₁⟩

/-- A printed expression is read back wherever a stream spells it in front of a word that does not
extend it. A chain is read together with the operators behind it. -/
def Layout.Readable (d : Nat) (n : Node) (w : List Token) : Layout → Prop
  | factor => ∀ {s rest}, s.Spells (w ++ rest) →
    ∃ n' s', ReadsExpression .factor d s n' s' ∧ n'.erase = n.erase ∧ s'.Spells rest
  | tiers ts => ∀ {s rest}, s.Spells (w ++ rest) →
    (∀ t ∈ ts, t.operator? (rest.headD .endOfInput) = none) →
    ∃ n' s', ReadsExpression (.tiers ts) d s n' s' ∧ n'.erase = n.erase ∧ s'.Spells rest
  | chain t k => k ≤ d ∧ ∀ {s rest}, s.Spells (w ++ rest) →
    (∀ u ∈ t.tighter, u.operator? (rest.headD .endOfInput) = none) →
    ∃ n' s₁, n'.erase = n.erase ∧ s₁.Spells rest ∧
      ∀ {d' whole s'}, ReadsExpression (.chain t n') d' s₁ whole s' →
        ∃ s'', s''.pending = s'.pending ∧
          ReadsExpression (.tiers (t :: t.tighter)) (max d (k + d')) s whole s''

/-- A printed expression is read back. -/
theorem PrintsExpression.readable {layout : Layout} {d : Nat} {n : Node}
    (h : PrintsExpression layout d n w) : layout.Readable d n w := by
  induction h with
  | literal literal => exact literal.readsFactor
  | ident o name =>
    intro s rest hs
    obtain ⟨s₁, take, hs⟩ := TokenStream.Spells.takes (w := rest) hs
    exact ⟨_, s₁.numbered, .ident take, rfl, hs⟩
  | scan o =>
    intro s rest hs
    obtain ⟨s₁, word, hs⟩ := hs.takes
    obtain ⟨s₂, left, hs⟩ := hs.takes
    obtain ⟨s₃, right, hs⟩ := hs.takes
    exact ⟨_, s₃.numbered, .scan word left right, rfl, hs⟩
  | parens _ ih =>
    intro s rest hs
    simp only [List.append_assoc, List.cons_append, List.nil_append] at hs
    obtain ⟨s₁, left, hs⟩ := TokenStream.Spells.takes (s := s.deeper) hs
    obtain ⟨n', s₂, inner, hn, hs⟩ := ih hs fun t _ => by cases t <;> rfl
    obtain ⟨s₃, right, hs⟩ := hs.takes
    exact ⟨n', s₃.shallower, .parens left inner right, hn, hs⟩
  | unary o op _ ih =>
    intro s rest hs
    obtain ⟨s₁, take, hs⟩ := TokenStream.Spells.takes (s := s.deeper) hs
    obtain ⟨n', s₂, operand, hn, hs⟩ := ih hs
    refine ⟨_, s₂.shallower.numbered, .prefixed (prefixOperator?_mark op) take operand, ?_, hs⟩
    rw [erase, erase, hn]
  | atom _ ih =>
    intro s rest hs _
    obtain ⟨n', s', factor, hn, hs⟩ := ih hs
    exact ⟨n', s', .atom factor, hn, hs⟩
  | tier _ ih =>
    intro s rest hs hrest
    obtain ⟨hk, hchain⟩ := ih
    obtain ⟨n', s₁, hn, hs, hwhole⟩ := hchain hs fun u hu => hrest u (.tail _ hu)
    have hstop := hs.current_eq ▸ hrest _ (.head _)
    obtain ⟨s', hpending, read⟩ := hwhole (.stop hstop)
    rw [Nat.add_zero, Nat.max_eq_left hk] at read
    exact ⟨n', s', read, hn, hs.of_pending_eq hpending⟩
  | first _ ih =>
    refine ⟨Nat.zero_le _, fun {s rest} hs hrest => ?_⟩
    obtain ⟨n', s₁, operand, hn, hs⟩ := ih hs hrest
    refine ⟨n', s₁, hn, hs, fun {d' whole s'} operators => ⟨s', rfl, ?_⟩⟩
    rw [Nat.zero_add]
    exact .tier operand operators
  | @more d d' k left right w w' o op _ _ ih ih' =>
    obtain ⟨hk, hchain⟩ := ih
    refine ⟨by omega, fun {s rest} hs hrest => ?_⟩
    simp only [List.append_assoc, List.cons_append, List.nil_append] at hs
    obtain ⟨left', s₁, hleft, hs, hwhole⟩ := hchain hs fun u hu =>
      Tier.operator?_of_tighter (mark_mem_signs op) hu
    obtain ⟨s₂, take, hs⟩ := TokenStream.Spells.takes (s := s₁.deeper) hs
    obtain ⟨right', s₃, operand, hright, hs⟩ := ih' hs hrest
    refine ⟨.binary (s₃.originAt s₁.current.line) op left' right', s₃.numbered,
      by rw [erase, erase, hleft, hright], hs, fun {d₁ whole s'} operators => ?_⟩
    obtain ⟨s'', hpending, read⟩ := hwhole (.more (operator?_mark op) take operand operators)
    refine ⟨s'', hpending, ?_⟩
    have hdepth : max d (k + (max d' d₁ + 1)) = max (max d (k + 1 + d')) (k + 1 + d₁) := by omega
    rwa [hdepth] at read

/-- A whole expression is read back in front of a token that is no infix operator. -/
theorem PrintsExpression.reads {d : Nat} {n : Node} (h : PrintsExpression (.tiers Tier.all) d n w)
    (hs : s.Spells (w ++ rest)) (hrest : ∀ t : Tier, t.operator? (rest.headD .endOfInput) = none) :
    ∃ n' s', ReadsExpression (.tiers Tier.all) d s n' s' ∧ n'.erase = n.erase ∧ s'.Spells rest :=
  h.readable hs fun t _ => hrest t

/-! ## Fields -/

/-- A printed item is read back. -/
theorem PrintsItem.reads {n : Node} {token : Token} (h : PrintsItem n token)
    (hs : s.Spells (token :: rest)) :
    ∃ n' s', ReadsItem s n' s' ∧ n'.erase = n.erase ∧ s'.Spells rest := by
  obtain ⟨s₁, take, hs₁⟩ := hs.takes
  cases h with
  | str o content => exact ⟨_, s₁.numbered, .text take, rfl, hs₁⟩
  | ident o name => exact ⟨_, s₁.numbered, .name take, rfl, hs₁⟩

/-- An item is not written by a line end. -/
theorem PrintsItem.ne_newline {n : Node} {token : Token} (h : PrintsItem n token) :
    token ≠ .newline := by
  cases h <;> simp

/-- Printed items are read back. -/
theorem PrintsItems.reads {ns : List Node} (h : PrintsItems ns w)
    (hs : s.Spells (w ++ .mark .closeBracket :: rest)) :
    ∃ ns' s', ReadsItems s ns' s' ∧ ns'.map erase = ns.map erase ∧ s'.Spells rest := by
  induction h generalizing s with
  | none =>
    obtain ⟨s', right, hs⟩ := hs.takes
    exact ⟨[], s', .close (.done (by simp [right.1])) right, rfl, hs⟩
  | one item =>
    have hskip : s.current.token ≠ .newline := by
      rw [hs.current_eq]
      exact item.ne_newline
    obtain ⟨n', s₁, read, hn, hs⟩ := item.reads hs
    obtain ⟨s', right, hs⟩ := hs.takes
    exact ⟨[n'], s', .last (.done hskip) read (.done (by simp [right.1])) right, by simp [hn], hs⟩
  | more item _ ih =>
    have hskip : s.current.token ≠ .newline := by
      rw [hs.current_eq]
      exact item.ne_newline
    obtain ⟨n', s₁, read, hn, hs⟩ := item.reads hs
    obtain ⟨s₂, comma, hs⟩ := hs.takes
    obtain ⟨ns', s', read', hns, hs⟩ := ih hs
    exact ⟨n' :: ns', s', .comma (.done hskip) read (.done (by simp [comma.1])) comma read',
      by simp [hn, hns], hs⟩

/-- A property with a new key comes behind the others. -/
theorem putProperty_of_new {before : List Node} {line : Nat} {key : String} {value : PropertyValue}
    (h : ∀ n ∈ before, propertyKey? n ≠ some key) :
    putProperty before line key value s =
      .ok (before ++ [value.toNode (s.originAt line) key]) s.numbered := by
  rw [putProperty, if_neg (by simpa using h)]
  rfl

/-- A literal is read back as the value of a property. -/
theorem PrintsLiteral.readsValue {n : Node} {token : Token} (h : PrintsLiteral n token)
    (hs : s.Spells (token :: rest)) :
    ∃ n' s', ReadsValue s (.scalar n') s' ∧ n'.erase = n.erase ∧ s'.Spells rest := by
  obtain ⟨s₁, take, hs₁⟩ := hs.takes
  cases h with
  | int o k => exact ⟨_, s₁.numbered, .integer take, rfl, hs₁⟩
  | str o content => exact ⟨_, s₁.numbered, .text take, rfl, hs₁⟩
  | bool o b => exact ⟨_, s₁.numbered, .boolean take, rfl, hs₁⟩

/-- A printed property is read back behind properties with other keys. -/
theorem PrintsProperty.reads {n : Node} {before : List Node} (h : PrintsProperty n w)
    (hnew : ∀ m ∈ before, propertyKey? m ≠ propertyKey? n) (hs : s.Spells (w ++ rest)) :
    ∃ n' s', ReadsProperty before s (before ++ [n']) s' ∧ n'.erase = n.erase ∧ s'.Spells rest := by
  cases h with
  | scalar o key literal =>
    obtain ⟨s₁, name, hs⟩ := hs.takes
    obtain ⟨s₂, colon, hs⟩ := hs.takes
    obtain ⟨n', s₃, read, hn, hs⟩ := literal.readsValue hs
    refine ⟨_, s₃.numbered, .intro name colon read (putProperty_of_new hnew), ?_, hs⟩
    rw [PropertyValue.toNode, erase, erase, hn]
  | array o key items =>
    simp only [List.append_assoc, List.cons_append, List.nil_append] at hs
    obtain ⟨s₁, name, hs⟩ := hs.takes
    obtain ⟨s₂, colon, hs⟩ := hs.takes
    obtain ⟨s₃, left, hs⟩ := hs.takes
    obtain ⟨ns', s₄, read, hns, hs⟩ := items.reads hs
    refine ⟨_, s₄.numbered, .intro name colon (.array left read) (putProperty_of_new hnew), ?_, hs⟩
    rw [PropertyValue.toNode, erase, erase, eraseAll_eq_map, eraseAll_eq_map, hns]

/-- A printed property does not start with a line end. -/
theorem PrintsProperty.head_ne {n : Node} (h : PrintsProperty n w) :
    (w ++ rest).headD .endOfInput ≠ .newline := by
  cases h <;> simp

/-- What is printed as a property has a key. -/
theorem PrintsProperty.exists_key {n : Node} (h : PrintsProperty n w) :
    ∃ key, propertyKey? n = some key := by
  cases h with
  | scalar o key | array o key => exact ⟨key, rfl⟩

/-- Of distinct keys, the key of a later property is new. -/
theorem PrintsProperty.key_new {n : Node} {before behind : List Node} (h : PrintsProperty n w)
    (hkeys : ((before ++ n :: behind).filterMap propertyKey?).Nodup) :
    ∀ m ∈ before, propertyKey? m ≠ propertyKey? n := by
  obtain ⟨key, hkey⟩ := h.exists_key
  rw [List.filterMap_append, List.filterMap_cons_some hkey, List.nodup_append] at hkeys
  intro m hm heq
  exact hkeys.2.2 key (List.mem_filterMap.2 ⟨m, hm, heq.trans hkey⟩) key (.head _) rfl

/-- Properties with distinct keys are read in their order. -/
theorem PrintsProperties.reads {ns before : List Node} (h : PrintsProperties ns w)
    (hkeys : ((before ++ ns).filterMap propertyKey?).Nodup)
    (hs : s.Spells (w ++ .mark .closeBrace :: rest)) :
    ∃ ns' s', ReadsProperties before s (before ++ ns') s' ∧ ns'.map erase = ns.map erase ∧
      s'.Spells rest := by
  induction h generalizing s before with
  | none =>
    obtain ⟨s', right, hs⟩ := hs.takes
    exact ⟨[], s', by simpa using .close (.done (by simp [right.1])) right, rfl, hs⟩
  | one property =>
    have hskip : s.current.token ≠ .newline := by
      rw [hs.current_eq]
      exact property.head_ne
    obtain ⟨n', s₁, read, hn, hs⟩ := property.reads (property.key_new hkeys) hs
    have hend : s₁.current.token = .mark .closeBrace := hs.current_eq
    obtain ⟨s', right, hs⟩ := hs.takes
    exact ⟨[n'], s', .line (.done hskip) read (.inr hend) (.close (.done (by simp [hend])) right),
      by simp [hn], hs⟩
  | @more n m ns w w' property _ ih =>
    have hskip : s.current.token ≠ .newline := by
      rw [hs.current_eq, List.append_assoc, List.append_assoc]
      exact property.head_ne
    simp only [List.append_assoc, List.cons_append, List.nil_append] at hs
    obtain ⟨n', s₁, read, hn, hs⟩ := property.reads (property.key_new hkeys) hs
    obtain ⟨s₂, comma, hs⟩ := hs.takes
    have hkey : propertyKey? n' = propertyKey? n := by
      rw [← propertyKey?_erase n', hn, propertyKey?_erase]
    have hkeys' : ((before ++ [n'] ++ m :: ns).filterMap propertyKey?).Nodup := by
      simpa [List.filterMap_append, List.filterMap_cons, hkey] using hkeys
    obtain ⟨ns', s', read', hns, hs⟩ := ih hkeys' hs
    rw [List.append_assoc] at read'
    exact ⟨n' :: ns', s', .comma (.done hskip) read comma read', by simp [hn, hns], hs⟩

/-- A printed field is read back if none of its keys comes twice. -/
theorem PrintsField.reads {n : Node} (h : PrintsField n w) (hn : n.Spellable)
    (hs : s.Spells (w ++ rest)) :
    ∃ n' s', ReadsField s n' s' ∧ n'.erase = n.erase ∧ s'.Spells rest := by
  obtain @⟨ns, w, o, kind, name, properties⟩ := h
  simp only [List.append_assoc, List.cons_append, List.nil_append] at hs
  obtain ⟨s₁, word, hs⟩ := hs.takes
  obtain ⟨s₂, title, hs⟩ := hs.takes
  obtain ⟨s₃, left, hs⟩ := hs.takes
  have hkeys : (([] ++ ns).filterMap propertyKey?).Nodup := hn.2
  obtain ⟨ns', s₄, read, hns, hs⟩ := properties.reads hkeys hs
  refine ⟨_, s₄.numbered, .intro word title left read, ?_, hs⟩
  rw [erase, erase, eraseAll_eq_map, eraseAll_eq_map, List.nil_append, hns]

/-! ## Blocks -/

/-- Printed nodes are read back wherever a stream spells them. A line is read in front of the lines
behind it. -/
def BlockPart.Readable (d : Nat) (ns : List Node) (w : List Token) : BlockPart → Prop
  | block => ∀ {s rest}, s.Spells (w ++ rest) →
    ∃ n' s', ReadsBlock .block d s [n'] s' ∧ [n'.erase] = ns.map erase ∧ s'.Spells rest
  | lines => ∀ {s rest}, s.Spells (w ++ .mark .closeBrace :: rest) →
    ∃ ns' s', ReadsBlock .items d s ns' s' ∧ ns'.map erase = ns.map erase ∧ s'.Spells rest
  | line => ∀ {s rest}, s.Spells (w ++ rest) →
    ∃ ns' s₁, ns'.map erase = ns.map erase ∧ s₁.Spells rest ∧
      ∀ {d' ms s'}, ReadsBlock .items d' s₁ ms s' → ReadsBlock .items (max d d') s (ns' ++ ms) s'
  | children => ∀ {s rest}, s.Spells (w ++ .mark .closeBrace :: rest) →
    ∃ ns' s', ReadsBlock .children d s ns' s' ∧ ns'.map erase = ns.map erase ∧ s'.Spells rest

/-- No block starts with an infix operator. -/
theorem PrintsBlock.head_block {d : Nat} {ns : List Node}
    (h : PrintsBlock .block d ns w) (t : Tier) :
    t.operator? ((w ++ rest).headD .endOfInput) = none := by
  cases h
  cases t <;> rfl

/-- A statement that was read is a line. -/
theorem ReadsBlock.readable_line {s₁ : TokenStream} {d : Nat} {n n' : Node}
    (read : ReadsBlock .statement d s [n'] s₁) (hn : n'.erase = n.erase) (hs : s₁.Spells rest) :
    ∃ ns' s₁, ns'.map erase = [n].map erase ∧ s₁.Spells rest ∧
      ∀ {d' ms s'}, ReadsBlock .items d' s₁ ms s' → ReadsBlock .items (max d d') s (ns' ++ ms) s' :=
  ⟨[n'], s₁, by simp [hn], hs, .statement read⟩

/-- A printed part of a program is read back if all of it can be written. -/
theorem PrintsBlock.readable {part : BlockPart} {d : Nat} {ns : List Node}
    (h : PrintsBlock part d ns w) (hns : ∀ n ∈ ns, ∀ m ∈ n.walk, m.Spellable) :
    part.Readable d ns w := by
  induction h with
  | block o _ ih =>
    obtain ⟨-, hparts⟩ := Node.forall_walk.1 (hns _ (.head _))
    intro s rest hs
    simp only [List.append_assoc, List.cons_append, List.nil_append] at hs
    obtain ⟨s₁, left, hs⟩ := TokenStream.Spells.takes (s := s.deeper) hs
    obtain ⟨s₂, newline, hs⟩ := hs.takes
    obtain ⟨ns', s₃, read, hns, hs⟩ := ih hparts hs
    refine ⟨_, s₃.shallower.numbered, .block left newline read, ?_, hs⟩
    simp [erase, eraseAll_eq_map, hns]
  | noLine =>
    intro s rest hs
    obtain ⟨s', right, hs⟩ := hs.takes
    exact ⟨[], s', .close right, rfl, hs⟩
  | line _ _ ih ih' =>
    rw [List.forall_mem_cons] at hns
    intro s rest hs
    rw [List.append_assoc] at hs
    obtain ⟨ms, s₁, hms, hs, hread⟩ := ih (by simpa using hns.1) hs
    obtain ⟨ms', s', read, hms', hs⟩ := ih' hns.2 hs
    exact ⟨ms ++ ms', s', hread read, by simp [hms, hms'], hs⟩
  | field field =>
    intro s rest hs
    obtain ⟨n', s₁, read, hn, hs⟩ := field.reads (Node.forall_walk.1 (hns _ (.head _))).1 hs
    refine ⟨[n'], s₁, by simp [hn], hs, fun {d' ms s'} lines => ?_⟩
    rw [Nat.zero_max]
    exact .field read lines
  | print o expr =>
    intro s rest hs
    simp only [List.append_assoc, List.cons_append, List.nil_append] at hs
    obtain ⟨s₁, word, hs⟩ := hs.takes
    obtain ⟨s₂, left, hs⟩ := hs.takes
    obtain ⟨e, s₃, expr, he, hs⟩ := expr.reads hs fun t => by cases t <;> rfl
    obtain ⟨s₄, right, hs⟩ := hs.takes
    obtain ⟨s₅, newline, hs⟩ := hs.takes
    have read := ReadsBlock.print word left expr right newline
    exact read.readable_line (by rw [erase, erase, he]) hs
  | declare o name type =>
    intro s rest hs
    obtain ⟨s₁, word, hs⟩ := hs.takes
    obtain ⟨s₂, title, hs⟩ := hs.takes
    obtain ⟨s₃, sort, hs⟩ := hs.takes
    obtain ⟨s₄, newline, hs⟩ := TokenStream.Spells.takes (w := rest) hs
    exact (ReadsBlock.declare word title sort newline).readable_line rfl hs
  | declareInit o name type init =>
    intro s rest hs
    simp only [List.append_assoc, List.cons_append, List.nil_append] at hs
    obtain ⟨s₁, word, hs⟩ := hs.takes
    obtain ⟨s₂, title, hs⟩ := hs.takes
    obtain ⟨s₃, sort, hs⟩ := hs.takes
    obtain ⟨s₄, sign, hs⟩ := hs.takes
    obtain ⟨e, s₅, init, he, hs⟩ := init.reads hs fun t => by cases t <;> rfl
    obtain ⟨s₆, newline, hs⟩ := hs.takes
    have read := ReadsBlock.declareInit word title sort sign init newline
    exact read.readable_line (by rw [erase, erase, he]) hs
  | assign o o' name value =>
    intro s rest hs
    simp only [List.append_assoc, List.cons_append, List.nil_append] at hs
    obtain ⟨s₁, title, hs⟩ := hs.takes
    obtain ⟨s₂, sign, hs⟩ := TokenStream.Spells.takes (s := s₁.numbered) hs
    obtain ⟨e, s₃, value, he, hs⟩ := value.reads hs fun t => by cases t <;> rfl
    obtain ⟨s₄, newline, hs⟩ := hs.takes
    have read := ReadsBlock.assign title sign value newline
    exact read.readable_line (by rw [erase, erase, he]; rfl) hs
  | loop o condition block ih =>
    obtain ⟨-, hparts⟩ := Node.forall_walk.1 (hns _ (.head _))
    intro s rest hs
    simp only [List.append_assoc, List.cons_append, List.nil_append] at hs
    obtain ⟨s₁, word, hs⟩ := hs.takes
    obtain ⟨e, s₂, condition, he, hs⟩ := condition.reads hs block.head_block
    obtain ⟨body, s₃, read, hbody, hs⟩ := ih (by simpa using hparts _ (.tail _ (.head _))) hs
    obtain ⟨s₄, newline, hs⟩ := hs.takes
    have read := ReadsBlock.loop word condition read newline
    exact read.readable_line (by rw [erase, erase, he, (List.cons.inj hbody).1]) hs
  | branch o condition block ih =>
    obtain ⟨-, hparts⟩ := Node.forall_walk.1 (hns _ (.head _))
    intro s rest hs
    simp only [List.append_assoc, List.cons_append, List.nil_append] at hs
    obtain ⟨s₁, word, hs⟩ := hs.takes
    obtain ⟨e, s₂, condition, he, hs⟩ := condition.reads hs block.head_block
    obtain ⟨body, s₃, read, hbody, hs⟩ := ih (by simpa using hparts _ (.tail _ (.head _))) hs
    obtain ⟨s₄, newline, hs⟩ := hs.takes
    have read := ReadsBlock.branch word condition read newline
    exact read.readable_line (by rw [erase, erase, he, (List.cons.inj hbody).1]) hs
  | branchElse o condition block _ ih ih' =>
    obtain ⟨-, hparts⟩ := Node.forall_walk.1 (hns _ (.head _))
    intro s rest hs
    simp only [List.append_assoc, List.cons_append, List.nil_append] at hs
    obtain ⟨s₁, word, hs⟩ := hs.takes
    obtain ⟨e, s₂, condition, he, hs⟩ := condition.reads hs block.head_block
    obtain ⟨body, s₃, read, hbody, hs⟩ := ih (by simpa using hparts _ (.tail _ (.head _))) hs
    obtain ⟨s₄, other, hs⟩ := hs.takes
    obtain ⟨body', s₅, read', hbody', hs⟩ :=
      ih' (by simpa using hparts _ (.tail _ (.tail _ (.head _)))) hs
    obtain ⟨s₆, newline, hs⟩ := hs.takes
    have read := ReadsBlock.branchElse word condition read other read' newline
    exact read.readable_line
      (by rw [erase, erase, he, (List.cons.inj hbody).1, (List.cons.inj hbody').1]) hs
  | blank o =>
    intro s rest hs
    obtain ⟨s₁, newline, hs⟩ := TokenStream.Spells.takes (w := rest) hs
    exact (ReadsBlock.blank newline).readable_line rfl hs
  | form o name _ ih =>
    obtain ⟨-, hparts⟩ := Node.forall_walk.1 (hns _ (.head _))
    intro s rest hs
    simp only [List.append_assoc, List.cons_append, List.nil_append] at hs
    obtain ⟨s₁, word, hs⟩ := hs.takes
    obtain ⟨s₂, title, hs⟩ := hs.takes
    obtain ⟨s₃, left, hs⟩ := hs.takes
    obtain ⟨ns', s₄, read, hns, hs⟩ := ih hparts hs
    obtain ⟨s₅, newline, hs⟩ := TokenStream.Spells.takes (s := s₄.numbered) hs
    have read := ReadsBlock.formLine (.form word title left read) newline
    exact read.readable_line (by rw [erase, erase, eraseAll_eq_map, eraseAll_eq_map, hns]) hs
  | noChild =>
    intro s rest hs
    obtain ⟨s', right, hs⟩ := hs.takes
    exact ⟨[], s', .formClose (.done (by simp [right.1])) right, rfl, hs⟩
  | childField field _ ih =>
    rw [List.forall_mem_cons] at hns
    intro s rest hs
    rw [List.append_assoc] at hs
    obtain ⟨n', s₁, read, hn, hs⟩ := field.reads (Node.forall_walk.1 hns.1).1 hs
    obtain ⟨kind, htoken⟩ := read.first_token
    obtain ⟨ns', s', read', hns', hs⟩ := ih hns.2 hs
    exact ⟨n' :: ns', s', .formField (.done (by simp [htoken])) read read', by simp [hn, hns'], hs⟩
  | @childBlock _ _ _ _ body _ _ _ _ o o' container condition block admitted _ ih ih' =>
    rw [List.forall_mem_cons] at hns
    obtain ⟨-, hparts⟩ := Node.forall_walk.1 hns.1
    have hchildren := FormContainer.children_toNode container o
    intro s rest hs
    simp only [List.append_assoc, List.cons_append, List.nil_append] at hs
    obtain ⟨s₁, word, hs⟩ := hs.takes
    obtain ⟨e, s₂, condition, he, hs⟩ := condition.reads hs block.head_block
    obtain ⟨n', s₃, read, hbody, hs⟩ := ih (by simpa using hparts _ (by simp [hchildren])) hs
    obtain ⟨ns', s', read', hns', hs⟩ := ih' hns.2 (s := s₃.numbered) hs
    obtain ⟨origin, body', rfl⟩ := read.eq_block
    have hnode := (List.cons.inj hbody).1
    have hlines : body'.map erase = body.map erase := by
      simpa only [erase, Node.block.injEq, true_and, eraseAll_eq_map] using hnode
    have hadmitted := FormContainer.admits_of_map_erase_eq hlines admitted
    refine ⟨_, s', .formBlock (.done (by simp [word.1])) word condition read hadmitted read', ?_,
      hs⟩
    rw [List.map_cons, List.map_cons, FormContainer.erase_toNode, FormContainer.erase_toNode,
      he, hnode, hns']

end

/-- A text that writes a block, with single spaces between its tokens, has a reading as a
program. -/
theorem reads_spaced {root : Node} {d : Nat} {w : List Token} (h : PrintsBlock .block d [root] w)
    (hroot : ∀ n ∈ root.walk, n.Spellable) :
    ∃ s root' s', TokenStream.ofText (Text.stripComments (spaced w)) = .ok s ∧
      ReadsProgram d s root' s' ∧ root'.erase = root.erase := by
  have hall : ∀ n ∈ [root], ∀ m ∈ n.walk, m.Spellable := by simpa using hroot
  have hwritable := h.writable hall
  obtain ⟨lexemes, htokens, hw⟩ := tokenize_spaced (fun token ht => (hwritable token ht).1)
    fun content ht => (hwritable _ ht).2 content rfl
  obtain ⟨s, w', hstream, hs, hw'⟩ := TokenStream.ofText_of_tokenize htokens
  obtain rfl := List.append_cancel_right (hw.symm.trans hw')
  have hbefore : s.current.token ≠ .newline := by
    rw [hs.current_eq]
    cases h
    simp
  have hspells : s.Spells (w ++ []) := by rwa [List.append_nil]
  obtain ⟨root', s₁, read, hroot', hs⟩ := h.readable hall hspells
  have hend : s₁.current.token = .endOfInput := hs.current_eq
  exact ⟨s, root', s₁, hstream, .intro (.done hbefore) read (.done (by simp [hend])) hend,
    (List.cons.inj hroot').1⟩

/-- Parsing undoes printing. A well-formed tree has printings; parsing the text of one whose nesting
fits gives the tree back, up to the numbers and lines of its nodes, and parsing the text of a deeper
one fails for its nesting. -/
theorem parse_spaced_of_prints (root : Node) (hroot : root.WellFormed) :
    (∃ d w, PrintsBlock .block d [root] w) ∧
    ∀ d w, PrintsBlock .block d [root] w →
      (d ≤ maxDepth → ∃ root', parse (spaced w) = .ok root' ∧ root'.erase = root.erase) ∧
      (maxDepth < d → ∃ line construct,
        parse (spaced w) = .error (.grammar ⟨line, .nestingTooDeep construct maxDepth⟩)) := by
  refine ⟨exists_printsBlock hroot.shape, fun d w h => ?_⟩
  obtain ⟨s, root', s', hstream, read, heq⟩ := reads_spaced h hroot.spellable
  exact ⟨fun hd => ⟨root', read.parse_eq hstream hd, heq⟩, read.parse_tooDeep hstream⟩

/-- A difference whose right operand needs its parentheses and whose left operand has a pair to
spare. -/
theorem parse_spaced_difference :
    ∃ root w, root.WellFormed ∧ PrintsBlock .block 4 [root] w ∧
      spaced w = "\x7b \n Println ( ( 1 ) - ( 2 - 3 ) ) \n \x7d" ∧
      ∃ root', parse (spaced w) = .ok root' ∧ root'.erase = root.erase := by
  have hone : PrintsExpression .factor 0 (.int default 1) [.integer 1] := .literal (.int default 1)
  have htwo : PrintsExpression .factor 0 (.int default 2) [.integer 2] := .literal (.int default 2)
  have hthree : PrintsExpression .factor 0 (.int default 3) [.integer 3] :=
    .literal (.int default 3)
  have htighter := (tierOf .sub).layered_tighter
  have hinner := PrintsExpression.more default .sub (.first (htwo.tiers_of_factor htighter))
    (hthree.tiers_of_factor htighter)
  have hpair := PrintsExpression.parens (hone.tiers_of_factor (.inr ⟨.or, rfl⟩))
  have houter := PrintsExpression.more default .sub (.first (hpair.tiers_of_factor htighter))
    (.tiers_of_factor (.parens hinner.all_of_chain) htighter)
  have hblock := PrintsBlock.block default (.line (.print default houter.all_of_chain) .noLine)
  have hwell := Node.WellFormed.mk
    (.block default (List.forall_mem_singleton.2 (.print default
      (.binary default .sub (.literal (.int default 1))
        (.binary default .sub (.literal (.int default 2)) (.literal (.int default 3)))))))
    (by simp [Node.walk, Node.walkAll, Node.Spellable])
  exact ⟨_, _, hwell, hblock, by decide +kernel,
    ((parse_spaced_of_prints _ hwell).2 _ _ hblock).1 (by decide)⟩

end Grammar

end FormScript
