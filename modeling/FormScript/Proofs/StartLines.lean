import FormScript.Proofs.Extent
import FormScript.Proofs.Equality
import FormScript.Proofs.Numbering
import FormScript.Proofs.TokenLines

/-!
# Nodes and the lines of their first tokens

A node has the line of the first token that it was parsed from, with one exception: the node of an
infix operator has the line of the sign. Between its first token and the sign stands the left
operand, and a string literal may go over line ends, so the node is behind its first token by the
newlines in the literals of its left operand (`Node.lag`). Every reading leaves the tokens of its
nodes between its streams, all of them with this lag (`ReadsExpression.holds`, `ReadsField.holds`,
`ReadsBlock.holds`). What this means for the tree of an accepted text, and when nothing in it is
behind its first token, is `lines_of_parsed_nodes`.
-/

namespace FormScript

/-! ## Lines in a tree -/

namespace Node

/-- The characters of a string literal. -/
def content : Node → List Char
  | str _ content => content.toList
  | _ => []

/-- The number of newlines in the string literals of a tree. -/
def newlines (n : Node) : Nat :=
  (n.walk.flatMap content).count '\n'

/-- The number of lines between the first token of a node and the line that the node has: an infix
operator has the line of its sign, which is behind the literals of its left operand. -/
def lag : Node → Nat
  | binary _ _ left _ => left.newlines
  | _ => 0

/-- The line of a node is behind its first token by the lag of the node. -/
def Lags (n : Node) (first : Lexeme) : Prop :=
  n.line = first.line + n.lag

/-- Without a lag, a node is at the line of its first token. -/
theorem Lags.line_eq {n : Node} {first : Lexeme} (h : n.Lags first) (hlag : n.lag = 0) :
    n.line = first.line := by
  rwa [Lags, hlag] at h

/-- A single word does not lag. -/
theorem lag_of_word {n : Node} (h : n.children = []) : n.lag = 0 := by
  cases n with
  | binary => cases h
  | _ => rfl

/-- A node is in its own tree. -/
theorem mem_walk_self (n : Node) : n ∈ n.walk :=
  n.walk_eq ▸ .head _

/-- The parts of a node are in its tree. -/
theorem mem_walk_of_mem_children {n part : Node} (h : part ∈ n.children) : part ∈ n.walk := by
  obtain ⟨-, hparts⟩ := forall_walk.1 fun m (hm : m ∈ n.walk) => hm
  exact hparts part h part part.mem_walk_self

/-- A part has a smaller tree. -/
theorem length_walk_lt {n part : Node} (h : part ∈ n.children) :
    part.walk.length < n.walk.length := by
  obtain ⟨front, behind, heq⟩ := List.append_of_mem h
  rw [n.walk_eq, heq, walkAll_append, walkAll, List.length_cons, List.length_append,
    List.length_append]
  omega

/-- Proves a property of all nodes from their parts. -/
theorem induction_children {P : Node → Prop} (h : ∀ n, (∀ part ∈ n.children, P part) → P n)
    (n : Node) : P n := by
  induction hlen : n.walk.length using Nat.strongRecOn generalizing n with
  | ind length ih => exact h n fun part hpart => ih _ (hlen ▸ length_walk_lt hpart) part rfl

/-- A node is not behind any node of its tree if no node of the tree is behind its parts. -/
theorem line_le_of_children (n : Node) (h : ∀ m ∈ n.walk, ∀ part ∈ m.children, m.line ≤ part.line) :
    ∀ m ∈ n.walk, ∀ k ∈ m.walk, m.line ≤ k.line := by
  induction n using induction_children with
  | h n ih =>
    obtain ⟨hself, hparts⟩ := forall_walk.1 h
    refine forall_walk.2 ⟨forall_walk.2 ⟨Nat.le_refl _, fun part hpart k hk => ?_⟩,
      fun part hpart => ?_⟩
    · exact Nat.le_trans (hself part hpart)
        (ih part hpart (hparts part hpart) part part.mem_walk_self k hk)
    · exact ih part hpart (hparts part hpart)

/-- If no node is behind its parts, no operator has a lag: its first token is that of its left
operand, which has no lag itself. -/
theorem lag_eq_zero_of_children (n : Node) (hplaced : ∀ m ∈ n.walk, m.Placed Lags)
    (hle : ∀ m ∈ n.walk, ∀ part ∈ m.children, m.line ≤ part.line) : ∀ m ∈ n.walk, m.lag = 0 := by
  induction n using induction_children with
  | h n ih =>
    obtain ⟨⟨first, hself, hleft, -⟩, hparts⟩ := forall_walk.1 hplaced
    obtain ⟨hle, hles⟩ := forall_walk.1 hle
    have hlags : ∀ part ∈ n.children, ∀ m ∈ part.walk, m.lag = 0 := fun part hpart =>
      ih part hpart (hparts part hpart) (hles part hpart)
    refine forall_walk.2 ⟨?_, hlags⟩
    cases n with
    | binary o op left right =>
      have hlag : left.lag = 0 := hlags left (.head _) left left.mem_walk_self
      have hline : left.line = first.line + left.lag := hleft o op left right rfl
      have hself : (binary o op left right).line = first.line + (binary o op left right).lag :=
        hself
      have := hle left (.head _)
      omega
    | _ => rfl

/-- A node at the line of its first token is not behind its parts. -/
theorem Placed.line_le {n : Node} (h : n.Placed fun n first => n.line = first.line) :
    ∀ part ∈ n.children, n.line ≤ part.line := by
  obtain ⟨first, hself, -, hparts⟩ := h
  intro part hpart
  obtain ⟨l, hl, hle⟩ := hparts part hpart
  rwa [hself, hl]

end Node

/-! ## Pieces between streams -/

namespace TokenStream

/-- The pieces stand between `s` and `s'`, and all nodes in them have their lines. -/
def Holds (s : TokenStream) (ps : List Piece) (s' : TokenStream) : Prop :=
  ∃ w, s.Lexes w s' ∧ Covers Node.Lags ps w

/-- An expression stands between `s` and `s'`, with the newlines of its literals and no others. -/
def HoldsExpression (s : TokenStream) (n : Node) (s' : TokenStream) : Prop :=
  ∃ w, s.Lexes w s' ∧ Covers Node.Lags [.operand n] w ∧ newlinesIn w = n.newlines

/-- Properties stand between `s` and `s'`, with their entries. -/
def HoldsProperties (s : TokenStream) (ns : List Node) (s' : TokenStream) : Prop :=
  ∃ qs w, s.Lexes w s' ∧ CoversEntries Node.Lags qs w ∧ qs.map Prod.fst = ns ∧
    ∀ q ∈ qs, q.1.Lags q.2

section
variable {s s₁ s' : TokenStream} {token : Token} {ps qs : List Piece} {n : Node}

/-- Pieces stand one behind the other. -/
theorem Holds.trans (h : s.Holds ps s₁) (h' : s₁.Holds qs s') : s.Holds (ps ++ qs) s' := by
  obtain ⟨v, hv, hps⟩ := h
  obtain ⟨w, hw, hqs⟩ := h'
  exact ⟨v ++ w, hv.trans hw, hps.append hqs⟩

/-- Lines are still counted behind pieces. -/
theorem Holds.consecutive (h : s.Holds ps s') (hs : s.Consecutive) : s'.Consecutive := by
  obtain ⟨w, hw, -⟩ := h
  exact hs.lexes hw

/-- A token that is taken is a piece. -/
theorem Takes.holds (h : s.Takes token s') : s.Holds [.token token] s' :=
  ⟨_, h.lexes, .token h.1 .nil⟩

/-- What is skipped are fillers. -/
theorem Skips.fillers (h : s.Skips s') : ∃ w, s.Lexes w s' ∧ ∀ l ∈ w, l.IsFiller := by
  obtain ⟨w, hw, hnewlines⟩ := h.lexes
  exact ⟨w, hw, fun l hl => .inl (hnewlines l hl)⟩

/-- What is skipped is a gap. -/
theorem Skips.holds (h : s.Skips s') : s.Holds [.gap] s' := by
  obtain ⟨w, hw, hfillers⟩ := h.fillers
  refine ⟨w, hw, ?_⟩
  clear hw
  induction w with
  | nil => exact .gap .nil
  | cons l w ih =>
    rw [List.forall_mem_cons] at hfillers
    exact .filler hfillers.1 (ih hfillers.2)

/-- A node that starts with a token of its own. -/
theorem Takes.node (take : s.Takes token s₁) (rest : s₁.Holds ps s')
    (hframe : n.frame = .token token :: ps) (hline : n.Lags s.current) : s.Holds [.part n] s' := by
  obtain ⟨w, hw, hps⟩ := rest
  exact ⟨s.current :: w, take.lexes.trans hw, .node hline (hframe ▸ .token take.1 hps)⟩

/-- No pieces stand where nothing was read. -/
theorem Holds.nil (s : TokenStream) : s.Holds [] s :=
  ⟨[], .refl s, .nil⟩

/-- A gap may be empty. -/
theorem Holds.gap (s : TokenStream) : s.Holds [.gap] s :=
  ⟨[], .refl s, .gap .nil⟩

/-- A line end is a gap. -/
theorem Takes.gap (h : s.Takes .newline s') : s.Holds [.gap] s' :=
  ⟨_, h.lexes, .filler (.inl h.1) (.gap .nil)⟩

/-- An expression is an operand as a piece. -/
theorem HoldsExpression.holds (h : s.HoldsExpression n s') : s.Holds [.operand n] s' := by
  obtain ⟨w, hw, hn, -⟩ := h
  exact ⟨w, hw, hn⟩

/-- The line of an expression is behind the lookahead by its lag. -/
theorem HoldsExpression.lags (h : s.HoldsExpression n s') : n.Lags s.current := by
  obtain ⟨w, hw, hn, -⟩ := h
  obtain ⟨l, v, rfl⟩ := hn.exists_first
  exact hw.current_eq ▸ hn.first_operand

/-- No properties stand where nothing was read. -/
theorem HoldsProperties.none (s : TokenStream) : s.HoldsProperties [] s :=
  ⟨[], [], .refl s, .none, rfl, by simp⟩

/-- Line ends may stand behind properties. -/
theorem HoldsProperties.skip {ns : List Node} (h : s.HoldsProperties ns s₁) (skip : s₁.Skips s') :
    s.HoldsProperties ns s' := by
  obtain ⟨qs, w, hw, hentries, hns, hlags⟩ := h
  obtain ⟨v, hv, hfillers⟩ := skip.fillers
  exact ⟨qs, _, hw.trans hv, hentries.fillers hfillers, hns, hlags⟩

/-- A comma may stand behind properties. -/
theorem HoldsProperties.comma {ns : List Node} (h : s.HoldsProperties ns s₁)
    (comma : s₁.Takes (.mark .comma) s') : s.HoldsProperties ns s' := by
  obtain ⟨qs, w, hw, hentries, hns, hlags⟩ := h
  exact ⟨qs, _, hw.trans comma.lexes, .filler hentries (.inr comma.1), hns, hlags⟩

/-- Properties are a piece of their field. -/
theorem HoldsProperties.holds {ns : List Node} (h : s.HoldsProperties ns s') :
    s.Holds [.properties ns] s' := by
  obtain ⟨qs, w, hw, hentries, rfl, hlags⟩ := h
  refine ⟨w, hw, ?_⟩
  have hproperties := Covers.properties hlags hentries .nil
  rwa [List.append_nil] at hproperties

/-- A node that is a single token is an expression. -/
theorem Takes.word (take : s.Takes token s₁) (hframe : n.frame = [.token token])
    (hline : n.line = s.current.line) (hcontent : token.content = n.content) :
    s.HoldsExpression n s₁ := by
  have hchildren := Node.children_of_word hframe
  have hlags : n.Lags s.current := by
    rw [Node.Lags, Node.lag_of_word hchildren, hline, Nat.add_zero]
  refine ⟨[s.current], take.lexes, .bare (.node hlags (hframe ▸ .token take.1 .nil)), ?_⟩
  rw [newlinesIn_token take.1, Node.newlines, Node.walk_eq, hchildren, hcontent]
  simp [Node.walkAll]

end

end TokenStream

namespace Grammar

open TokenStream (HoldsExpression)

/-- A token that is read as a prefix operator is its mark. -/
theorem prefixOperator?_eq_some {token : Token} {op : UnaryOp}
    (h : prefixOperator? token = some op) : token = .mark op.mark := by
  unfold prefixOperator? at h
  split at h <;> cases h <;> rfl

/-- A token that is read as an infix operator is its mark. -/
theorem Tier.operator?_eq_some {t : Tier} {token : Token} {op : BinaryOp}
    (h : t.operator? token = some op) : token = .mark op.mark := by
  unfold Tier.operator? at h
  split at h <;> cases h <;> rfl

/-- Where the expression of a rule begins: with the left operand of a chain, or with the rule
itself. -/
def ExpressionRule.Begins (s₀ s : TokenStream) : ExpressionRule → Prop
  | chain _ left => s₀.HoldsExpression left s
  | _ => s₀ = s

section
variable {s₀ s s' : TokenStream}

/-- What a rule for expressions reads stands where the expression begins, with its lines. -/
theorem ReadsExpression.holds {r : ExpressionRule} {d : Nat} {n : Node}
    (h : ReadsExpression r d s n s') (hs : s₀.Consecutive) (hr : r.Begins s₀ s) :
    s₀.HoldsExpression n s' := by
  induction h generalizing s₀ with
  | int take | str take | bool take | ident take =>
    obtain rfl := hr
    exact take.word rfl rfl rfl
  | scan word left right =>
    obtain rfl := hr
    refine ⟨_, word.lexes.trans (left.lexes.trans right.lexes),
      .bare (.node rfl (.token word.1 (.token left.1 (.token right.1 .nil)))), ?_⟩
    simp [newlinesIn, word.1, left.1, right.1, Token.content, Node.newlines,
      Node.walk, Node.content]
  | @parens s s₁ s₂ s₃ n _ left _ right ih =>
    obtain rfl := hr
    have hinner := ih (hs.lexes left.lexes) rfl
    -- the parenthesis is on the line of what follows it
    have hline : s₁.current.line = s₀.current.line := by
      rw [hs _ _ left.lexes, newlinesIn_token left.1]
      rfl
    have hlags : n.Lags s₀.current := by
      have := hinner.lags
      rwa [Node.Lags, hline] at this
    obtain ⟨w, hw, hn, hnewlines⟩ := hinner
    refine ⟨_, left.lexes.trans (hw.trans right.lexes), .parens hlags left.1 hn right.1 .nil, ?_⟩
    rw [newlinesIn_append, newlinesIn_append, hnewlines, newlinesIn_token left.1,
      newlinesIn_token right.1]
    simp [Token.content]
  | @prefixed s s₁ s₂ n _ token op sign take _ ih =>
    obtain rfl := hr
    obtain rfl := prefixOperator?_eq_some sign
    obtain ⟨w, hw, hn, hnewlines⟩ := ih (hs.lexes take.lexes) rfl
    refine ⟨_, take.lexes.trans hw, .bare (.node rfl (.token take.1 hn)), ?_⟩
    rw [newlinesIn_append, hnewlines, newlinesIn_token take.1]
    simp [Token.content, Node.newlines, Node.walk, Node.content]
  | atom _ ih => exact ih hs hr
  | tier _ _ ih ih' => exact ih' hs (ih hs hr)
  | stop => exact hr
  | @more s s₁ s₂ s₃ t left right n _ _ token op sign take _ _ ih ih' =>
    obtain rfl := Tier.operator?_eq_some sign
    refine ih' hs ?_
    obtain ⟨w, hw, hleft, hnewlines⟩ := hr
    obtain ⟨v, hv, hright, hnewlines'⟩ := ih ((hs.lexes hw).lexes take.lexes) rfl
    obtain ⟨l, w, rfl⟩ := hleft.exists_first
    -- the sign is behind the literals of the left operand
    have hlags : (Node.binary (s₂.originAt s.current.line) op left right).Lags l := by
      have hline := hs _ _ hw
      rwa [hw.current_eq, hnewlines] at hline
    refine ⟨_, hw.trans (take.lexes.trans hv),
      .bare (.node hlags (hleft.append (.token take.1 hright))), ?_⟩
    rw [newlinesIn_append, newlinesIn_append, hnewlines, hnewlines', newlinesIn_token take.1]
    simp [Token.content, Node.newlines, Node.walk, Node.content]

/-! ## Fields -/

/-- A property has the origin that it is made with. -/
theorem PropertyValue.origin_toNode (value : PropertyValue) (o : Origin) (key : String) :
    (value.toNode o key).origin = o := by
  cases value <;> rfl

/-- A property that is made at the line of its key does not lag. -/
theorem PropertyValue.lags_toNode {value : PropertyValue} {o : Origin} {key : String}
    {first : Lexeme} (h : o.line = first.line) : (value.toNode o key).Lags first := by
  cases value <;> exact h

/-- A property does not lag. -/
theorem lag_of_propertyKey? {p : Node} {key : String} (h : propertyKey? p = some key) :
    p.lag = 0 := by
  cases p with
  | scalar | array => rfl
  | _ => cases h

/-- An item is one token and does not lag. -/
theorem ReadsItem.covers {n : Node} (h : ReadsItem s n s') :
    s.Lexes [s.current] s' ∧ n.frame = [.token s.current.token] ∧ n.Lags s.current := by
  cases h with
  | text take | name take => exact ⟨take.lexes, by rw [take.1]; rfl, rfl⟩

/-- Items that are read are covered by their tokens. -/
theorem ReadsItems.covers {ns : List Node} (h : ReadsItems s ns s') :
    ∃ w, s.Lexes w s' ∧ CoversItems Node.Lags ns w := by
  induction h with
  | close skip right =>
    obtain ⟨u, hu, hfill⟩ := skip.fillers
    exact ⟨_, hu.trans right.lexes, (CoversItems.close right.1).fillers hfill⟩
  | last skip item skip' right =>
    obtain ⟨u, hu, hfill⟩ := skip.fillers
    obtain ⟨hitem, hframe, hlags⟩ := item.covers
    obtain ⟨v, hv, hfill'⟩ := skip'.fillers
    have hbehind := (CoversItems.close (P := Node.Lags) right.1).fillers hfill'
    exact ⟨_, hu.trans (hitem.trans (hv.trans right.lexes)),
      (hbehind.item hframe hlags).fillers hfill⟩
  | comma skip item skip' comma _ ih =>
    obtain ⟨u, hu, hfill⟩ := skip.fillers
    obtain ⟨hitem, hframe, hlags⟩ := item.covers
    obtain ⟨v, hv, hfill'⟩ := skip'.fillers
    obtain ⟨w, hw, hrest⟩ := ih
    have hbehind := (CoversItems.filler (.inr comma.1) hrest).fillers hfill'
    exact ⟨_, hu.trans (hitem.trans (hv.trans (comma.lexes.trans hw))),
      (hbehind.item hframe hlags).fillers hfill⟩

/-- A value that is read, with its key, is covered by its tokens. -/
theorem ReadsValue.covers {value : PropertyValue} {key : String} {l l₁ : Lexeme}
    (h : ReadsValue s value s') (name : l.token = .identifier key) (colon : l₁.token = .mark .colon)
    (o : Origin) :
    ∃ w, s.Lexes w s' ∧ CoversEntry Node.Lags (value.toNode o key) (l :: l₁ :: w) := by
  cases h with
  | text take | boolean take | integer take =>
    exact ⟨_, take.lexes, .scalar o name colon (by rw [take.1]; rfl) rfl⟩
  | array left read =>
    obtain ⟨w, hw, hitems⟩ := read.covers
    exact ⟨_, left.lexes.trans hw, .array o name colon left.1 hitems⟩

/-- A property that is read stands among those before it. -/
theorem ReadsProperty.holds {before after : List Node} (h : ReadsProperty before s after s')
    (hbefore : s₀.HoldsProperties before s) : s₀.HoldsProperties after s' := by
  obtain ⟨name, colon, read, put⟩ := h
  obtain ⟨qs, w, hw, hentries, rfl, hlags⟩ := hbefore
  rcases putProperty_cases hentries.nodup put with ⟨hnew, rfl, rfl⟩ | ⟨front, p, behind, hsplit,
    hkey, rfl, rfl⟩
  · obtain ⟨v, hv, hentry⟩ := read.covers name.1 colon.1 _
    refine ⟨_, _, hw.trans (name.lexes.trans (colon.lexes.trans hv)),
      .new hentries ?_ hentry, ?_, ?_⟩
    · rwa [PropertyValue.propertyKey?_toNode]
    · rw [List.map_append, List.map_singleton]
    · refine List.forall_mem_append.2 ⟨hlags, List.forall_mem_singleton.2 ?_⟩
      exact PropertyValue.lags_toNode rfl
  · obtain ⟨qfront, _, rfl, rfl, hrest⟩ := List.map_eq_append_iff.1 hsplit
    obtain ⟨⟨p, first⟩, qbehind, rfl, rfl, rfl⟩ := List.map_eq_cons_iff.1 hrest
    obtain ⟨v, hv, hentry⟩ := read.covers name.1 colon.1 p.origin
    rw [List.forall_mem_append, List.forall_mem_cons] at hlags
    obtain ⟨hfront, hp, hbehind⟩ := hlags
    refine ⟨_, _, hw.trans (name.lexes.trans (colon.lexes.trans hv)),
      .again hentries ?_ ?_ hentry, ?_, ?_⟩
    · rw [PropertyValue.propertyKey?_toNode, hkey]
    · exact PropertyValue.origin_toNode _ _ _
    · rw [List.map_append, List.map_cons]
    · refine List.forall_mem_append.2 ⟨hfront, List.forall_mem_cons.2 ⟨?_, hbehind⟩⟩
      exact PropertyValue.lags_toNode (hp.line_eq (lag_of_propertyKey? hkey))

/-- Properties that are read stand in front of the closing brace. -/
theorem ReadsProperties.holds {before after : List Node} (h : ReadsProperties before s after s')
    (hbefore : s₀.HoldsProperties before s) :
    ∃ s₁, s₀.HoldsProperties after s₁ ∧ s₁.Takes (.mark .closeBrace) s' := by
  induction h with
  | close skip right => exact ⟨_, hbefore.skip skip, right⟩
  | comma skip property comma _ ih => exact ih ((property.holds (hbefore.skip skip)).comma comma)
  | line skip property _ _ ih => exact ih (property.holds (hbefore.skip skip))

/-- A field that is read stands where it was read, with its lines. -/
theorem ReadsField.holds {n : Node} (h : ReadsField s n s') : s.Holds [.part n] s' := by
  obtain ⟨word, title, left, read⟩ := h
  obtain ⟨s₅, hproperties, right⟩ := read.holds (.none _)
  exact word.node (title.holds.trans (left.holds.trans (hproperties.holds.trans right.holds))) rfl
    rfl

/-! ## Blocks -/

/-- How the nodes of a rule are written. -/
def BlockRule.pieces (ns : List Node) : BlockRule → List Piece
  | block | form => ns.map .part
  | statement => ns.flatMap Node.linePieces
  | items => ns.flatMap Node.linePieces ++ [.token (.mark .closeBrace)]
  | children => .gap :: (Node.spread ns ++ [.token (.mark .closeBrace)])

/-- A whole expression stands where it was read, with its lines. -/
theorem ReadsExpression.holds_all {d : Nat} {n : Node}
    (h : ReadsExpression (.tiers Tier.all) d s n s') (hs : s.Consecutive) :
    s.Holds [.operand n] s' :=
  (h.holds hs rfl).holds

/-- A statement that starts with a token of its own and ends with its line. -/
theorem statement_holds {s₁ s₂ : TokenStream} {token : Token} {ps : List Piece} {n : Node}
    (take : s.Takes token s₁) (rest : s₁.Holds ps s₂) (newline : s₂.Takes .newline s')
    (hframe : n.frame = .token token :: ps)
    (hline : n.Lags s.current) (hpieces : n.linePieces = [.part n, .token .newline]) :
    s.Holds (BlockRule.statement.pieces [n]) s'.numbered := by
  rw [BlockRule.pieces, List.flatMap_singleton, hpieces]
  exact (take.node rest hframe hline).trans newline.holds

/-- What a rule for blocks reads stands where it was read, with its lines. -/
theorem ReadsBlock.holds {r : BlockRule} {d : Nat} {ns : List Node} (h : ReadsBlock r d s ns s')
    (hs : s.Consecutive) : s.Holds (r.pieces ns) s' := by
  induction h with
  | block left newline _ ih =>
    have hbody := ih ((hs.lexes left.lexes).lexes newline.lexes)
    exact left.node (newline.holds.trans hbody) rfl rfl
  | close right => exact right.holds
  | field first _ ih =>
    have hfirst := first.holds
    have hrest := ih (hfirst.consecutive hs)
    obtain ⟨-⟩ := first
    exact hfirst.trans hrest
  | statement _ _ ih ih' =>
    have hfirst := ih hs
    have hrest := ih' (hfirst.consecutive hs)
    simpa [BlockRule.pieces] using hfirst.trans hrest
  | print word left expr right newline =>
    have hexpr := expr.holds_all ((hs.lexes word.lexes).lexes left.lexes)
    exact statement_holds word (left.holds.trans (hexpr.trans right.holds)) newline rfl rfl rfl
  | declare word title sort newline =>
    exact statement_holds word (title.holds.trans sort.holds) newline rfl rfl rfl
  | declareInit word title sort sign init newline =>
    have hinit :=
      init.holds_all ((((hs.lexes word.lexes).lexes title.lexes).lexes sort.lexes).lexes sign.lexes)
    exact statement_holds word (title.holds.trans (sort.holds.trans (sign.holds.trans hinit)))
      newline rfl rfl rfl
  | @assign s s₁ s₂ s₃ s₄ _ name e title sign value newline =>
    obtain ⟨w, hw, hvalue⟩ := value.holds_all ((hs.lexes title.lexes).lexes sign.lexes)
    -- the target and the assignment start with the same token
    have hnode : s.Holds [.part (.assign (s₄.originAt s.current.line)
        (.ident (s₁.originAt s.current.line) name) e)] s₃ :=
      ⟨_, title.lexes.trans (sign.lexes.trans hw),
        .node rfl (.part rfl (.token title.1 .nil) (.token sign.1 hvalue))⟩
    exact hnode.trans newline.holds
  | loop word condition _ newline ih | branch word condition _ newline ih =>
    have hcondition := condition.holds_all (hs.lexes word.lexes)
    have hbody := ih (hcondition.consecutive (hs.lexes word.lexes))
    exact statement_holds word (hcondition.trans hbody) newline rfl rfl rfl
  | branchElse word condition _ other _ newline ih ih' =>
    have hcondition := condition.holds_all (hs.lexes word.lexes)
    have hs' := hcondition.consecutive (hs.lexes word.lexes)
    have hpositive := ih hs'
    have hnegative := ih' ((hpositive.consecutive hs').lexes other.lexes)
    have hrest := hcondition.trans (hpositive.trans (other.holds.trans hnegative))
    exact statement_holds word hrest newline rfl rfl rfl
  | blank newline => exact newline.node (.nil _) rfl rfl
  | formLine read newline ih =>
    obtain ⟨origin, name, body, rfl⟩ := read.eq_form
    exact (ih hs).trans newline.gap
  | formBare read _ ih =>
    obtain ⟨origin, name, body, rfl⟩ := read.eq_form
    exact (ih hs).trans (.gap _)
  | form word title left _ ih =>
    have hbody := ih (((hs.lexes word.lexes).lexes title.lexes).lexes left.lexes)
    exact word.node (title.holds.trans (left.holds.trans hbody)) rfl rfl
  | formClose skip right => exact skip.holds.trans right.holds
  | formField skip first _ ih =>
    have hfirst := first.holds
    have hrest := ih (hfirst.consecutive (skip.holds.consecutive hs))
    exact skip.holds.trans (hfirst.trans hrest)
  | @formBlock _ s₁ _ _ s₄ _ _ _ _ c e origin body _ skip word condition _ _ _ ih ih' =>
    have hs₁ := (skip.holds.consecutive hs).lexes word.lexes
    have hcondition := condition.holds_all hs₁
    have hbody := ih (hcondition.consecutive hs₁)
    have hrest := ih' (hbody.consecutive (hcondition.consecutive hs₁))
    have hnode := word.node (n := c.toNode (s₄.originAt s₁.current.line) e (.block origin body))
      (hcondition.trans hbody) (by cases c <;> rfl) (by cases c <;> rfl)
    exact skip.holds.trans (hnode.trans hrest)

/-! ## Accepted texts -/

/-- An accepted text holds the tokens of its tree, between line ends. -/
theorem parsedFrom_of_parse {source : String} {root : Node} (h : parse source = .ok root) :
    ∃ before w behind last, tokenize source = .ok (before ++ w ++ behind ++ [last]) ∧
      (∀ l ∈ before ++ behind, l.token = .newline) ∧ last.token = .endOfInput ∧
      root.ParsedFrom Node.Lags w := by
  obtain ⟨s, s', d, hstream, -, skip, read, skip', ends⟩ := parse_ok h
  obtain ⟨before, hbefore, hnewlines⟩ := skip.lexes
  obtain ⟨w, hw, hroot⟩ := read.holds ((TokenStream.consecutive_of_ofText hstream).lexes hbefore)
  obtain ⟨behind, hbehind, hnewlines'⟩ := skip'.lexes
  have hlexes := (hbefore.trans hw).trans hbehind
  exact ⟨before, w, behind, s'.current, TokenStream.tokenize_of_lexes hstream hlexes ends,
    List.forall_mem_append.2 ⟨hnewlines, hnewlines'⟩, ends, hroot⟩

end

end Grammar

/-- Every node of an accepted text has the line of the first token that it was parsed from, but an
infix operator stands as many lines behind it as there are newlines in the string literals of its
left operand. So all nodes have the lines of their first tokens, and no node has a line behind that
of a node below it, exactly if no left operand has a string literal with a newline. -/
theorem lines_of_parsed_nodes {source : String} {root : Node} (h : parse source = .ok root) :
    ∃ before w behind last, tokenize source = .ok (before ++ w ++ behind ++ [last]) ∧
      (∀ l ∈ before ++ behind, l.token = .newline) ∧ last.token = .endOfInput ∧
      root.ParsedFrom (fun n first => n.line = first.line + n.lag) w ∧
      (root.ParsedFrom (fun n first => n.line = first.line) w ↔ ∀ n ∈ root.walk, n.lag = 0) ∧
      ((∀ n ∈ root.walk, ∀ m ∈ n.walk, n.line ≤ m.line) ↔ ∀ n ∈ root.walk, n.lag = 0) := by
  obtain ⟨before, w, behind, last, htokens, hnewlines, hlast, hroot⟩ :=
    Grammar.parsedFrom_of_parse h
  have hsorted : w.Pairwise fun l l' => l.line ≤ l'.line := by
    have hall := pairwise_line_of_tokenize htokens
    simp only [List.pairwise_append] at hall
    exact hall.1.1.2.1
  have hexact : (∀ n ∈ root.walk, n.lag = 0) →
      root.ParsedFrom (fun n first => n.line = first.line) w := by
    intro hlag
    refine hroot.mono (fun n l hword hlags => hlags.line_eq (Node.lag_of_word hword))
      fun n hn m hm l hlags => ?_
    obtain rfl := List.mem_singleton.1 hn
    exact hlags.line_eq (hlag m hm)
  have hrising : root.ParsedFrom (fun n first => n.line = first.line) w →
      ∀ n ∈ root.walk, ∀ m ∈ n.walk, n.line ≤ m.line := by
    intro hparsed
    refine root.line_le_of_children fun m hm => Node.Placed.line_le ?_
    exact (hparsed.located hsorted root (.head _)).2 m hm
  have hzero : (∀ n ∈ root.walk, ∀ m ∈ n.walk, n.line ≤ m.line) → ∀ n ∈ root.walk, n.lag = 0 := by
    intro hle
    refine root.lag_eq_zero_of_children (hroot.located hsorted root (.head _)).2
      fun m hm part hpart => ?_
    exact hle m hm part (Node.mem_walk_of_mem_children hpart)
  exact ⟨before, w, behind, last, htokens, hnewlines, hlast, hroot, ⟨hzero ∘ hrising, hexact⟩,
    ⟨hzero, hrising ∘ hexact⟩⟩

/-- A sum whose left operand goes over a line end. -/
def Sample.wrapped : String :=
  "\x7b\nPrintln(\"a\nb\" + \"c\")\n\x7d"

/-- The sum has the line of its sign, which is behind its own left operand. -/
theorem wrapped_sum_behind_left_operand : ∃ root, parse Sample.wrapped = .ok root ∧
    (∃ o left right, .binary o .add left right ∈ root.walk ∧ o.line = 3 ∧ left.line = 2) ∧
    ∃ before w behind last, tokenize Sample.wrapped = .ok (before ++ w ++ behind ++ [last]) ∧
      root.ParsedFrom (fun n first => n.line = first.line + n.lag) w ∧
      ¬ root.ParsedFrom (fun n first => n.line = first.line) w ∧
      ¬ ∀ n ∈ root.walk, ∀ m ∈ n.walk, n.line ≤ m.line := by
  have hparse : parse Sample.wrapped = .ok (.block ⟨4, 1⟩ [.print ⟨3, 2⟩
      (.binary ⟨2, 3⟩ .add (.str ⟨0, 2⟩ "a\nb") (.str ⟨1, 3⟩ "c"))]) := by decide +kernel
  obtain ⟨before, w, behind, last, htokens, -, -, hlags, hexact, hrising⟩ :=
    lines_of_parsed_nodes hparse
  have hlag : (Node.binary ⟨2, 3⟩ .add (.str ⟨0, 2⟩ "a\nb") (.str ⟨1, 3⟩ "c")).lag ≠ 0 := by decide
  -- the sum stands behind the block and the statement
  exact ⟨_, hparse, ⟨_, _, _, .tail _ (.tail _ (.head _)), rfl, rfl⟩, before, w, behind, last,
    htokens, hlags, fun h => hlag (hexact.1 h _ (.tail _ (.tail _ (.head _)))),
    fun h => hlag (hrising.1 h _ (.tail _ (.tail _ (.head _))))⟩

end FormScript
