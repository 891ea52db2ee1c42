import FormScript.Proofs.Nesting
import FormScript.Proofs.Progress

/-!
# What stands around an operand

The levels that are open while the parser reads an operand and the nodes that stand above it in the
tree both come from what stands around the operand in the text: blocks, prefix operators,
parentheses and chains of operators (`Surrounding`). Blocks and prefix operators open a level and
make a node. Parentheses open a level and make no node. A chain opens a level with each operator
that stands before the operand, but its tree leans to the left: the operator in front of the operand
is above it, and so are all the operators behind it, whose levels are not open yet. So the levels
are bounded by `maxDepth` and the nodes are not.

`OperandIn source around` says that some operand of the program in a text has the surroundings
`around`, the outermost first. It follows the readings of `ReadsExpression` and `ReadsBlock` down to
a single operand.
-/

namespace FormScript

/-! ## Whole expressions -/

namespace Node

/-- Whether a node is of a kind that expressions are made of. -/
def isExpression : Node → Bool
  | int _ _ | str _ _ | bool _ _ | ident _ _ | scan _ | unary _ _ _ | binary _ _ _ _ => true
  | _ => false

/-- The whole expression `e` stands in a tree inside of a number of blocks. -/
inductive HasExpression : Node → Nat → Node → Prop where
  | here {e : Node} (h : e.isExpression = true) : HasExpression e 0 e
  | part {n part e : Node} {blocks : Nat} (h : n.isExpression = false) (hpart : part ∈ n.children)
      (inner : HasExpression part blocks e) :
    HasExpression n ((if n.nests then 1 else 0) + blocks) e

section
variable {n e : Node} {blocks : Nat} {p : List (Node × Bool)}

/-- Literals are of a kind that expressions are made of. -/
theorem IsLiteral.isExpression (h : IsLiteral n) : n.isExpression = true := by
  cases h <;> rfl

/-- The root of an expression is of a kind that expressions are made of. -/
theorem IsExpression.isExpression (h : IsExpression n) : n.isExpression = true := by
  cases h with
  | literal h => exact h.isExpression
  | _ => rfl

/-- An expression is the only whole expression in it. -/
theorem HasExpression.eq_self (h : HasExpression n blocks e) (hn : n.isExpression = true) :
    blocks = 0 ∧ e = n := by
  cases h with
  | here => exact ⟨rfl, rfl⟩
  | part hn' => exact absurd (hn.symm.trans hn') nofun

/-- The parts of a node that is no expression are not operands. -/
theorem exits_of_isExpression (h : n.isExpression = false) :
    n.exits = n.children.map (·, false) := by
  cases n with
  | binary => cases h
  | _ => rfl

/-- The blocks around an expression stand above it. -/
theorem HasExpression.path (h : HasExpression n blocks e) (path : e.IsPath p) :
    ∃ p', n.IsPath p' ∧ nesting p' = blocks + nesting p ∧ blocks ≤ openNesting p' := by
  induction h with
  | here => exact ⟨p, path, (Nat.zero_add _).symm, Nat.zero_le _⟩
  | @part n part e blocks hn hpart _ ih =>
    obtain ⟨p', path', hp', hopen⟩ := ih path
    have hexit : (part, false) ∈ n.exits := by
      rw [exits_of_isExpression hn]
      exact List.mem_map_of_mem hpart
    refine ⟨_, .step hexit path', ?_, ?_⟩
    · rw [nesting_cons]
      omega
    · rw [openNesting_cons, Bool.not_false, Bool.and_true]
      omega

/-- Outside of expressions a path leaves nothing through a left operand. -/
theorem IsPath.to_expression (h : n.IsPath p) :
    nesting p = openNesting p ∨ ∃ blocks e p', HasExpression n blocks e ∧ e.IsPath p' ∧
      nesting p = blocks + nesting p' ∧ blocks ≤ openNesting p := by
  induction h with
  | leaf => exact .inl (by simp [nesting, openNesting])
  | @step n part left p hexit rest ih =>
    cases hn : n.isExpression with
    | true => exact .inr ⟨0, n, _, .here hn, .step hexit rest, (Nat.zero_add _).symm, Nat.zero_le _⟩
    | false =>
      rw [exits_of_isExpression hn] at hexit
      obtain ⟨part, hpart, heq⟩ := List.mem_map.1 hexit
      cases heq
      simp only [nesting_cons, openNesting_cons, Bool.not_false, Bool.and_true]
      rcases ih with heq | ⟨blocks, e, p', inner, path, hp, hopen⟩
      · exact .inl (by rw [heq])
      · exact .inr ⟨_, e, p', .part hn hpart inner, path, by omega, by omega⟩

/-- An expression in anything else stands in one of its parts. -/
theorem HasExpression.of_part (h : HasExpression n blocks e) (hn : n.isExpression = false) :
    ∃ part ∈ n.children, ∃ inside, HasExpression part inside e ∧
      blocks = (if n.nests then 1 else 0) + inside := by
  cases h with
  | here hn' => exact absurd (hn'.symm.trans hn) nofun
  | part _ hpart inner => exact ⟨_, hpart, _, inner, rfl⟩

/-- Items of arrays are of a kind that expressions are made of. -/
theorem IsItem.isExpression (h : IsItem n) : n.isExpression = true := by
  cases h <;> rfl

/-- A single word has nothing on its path. -/
theorem HasExpression.nesting_of_word (h : HasExpression n blocks e) (hword : e.children = [])
    (path : e.IsPath p) : nesting p = 0 := by
  induction h with
  | part _ _ _ ih => exact ih hword path
  | @here e he =>
    cases path with
    | leaf => cases e <;> simp_all [isExpression, nests, nesting, children]
    | step hexit => cases e <;> simp_all [isExpression, exits, children]

/-- What stands in a field is a single word. -/
theorem IsField.children_eq_nil (h : IsField n) (inner : HasExpression n blocks e) :
    e.children = [] := by
  obtain ⟨o, kind, name, properties⟩ := h
  obtain ⟨property, hproperty, inside, inner, -⟩ := inner.of_part rfl
  cases properties property hproperty with
  | scalar o key literal =>
    obtain ⟨value, hvalue, inside, inner, -⟩ := inner.of_part rfl
    cases List.mem_singleton.1 hvalue
    obtain ⟨-, rfl⟩ := inner.eq_self literal.isExpression
    cases literal <;> rfl
  | array o key items =>
    obtain ⟨item, hitem, inside, inner, -⟩ := inner.of_part rfl
    obtain ⟨-, rfl⟩ := inner.eq_self (items item hitem).isExpression
    cases items _ hitem <;> rfl

end

end Node

namespace Grammar

/-- A construct with an operand somewhere in it. Of the operators of a chain some stand before the
operand, or before the parentheses that it is in, and the others behind. -/
inductive Surrounding where
  | block
  | sign
  | parens
  | chain (before behind : Nat)

namespace Surrounding

/-- The levels that a construct has open while the operand is read. -/
def levels : Surrounding → Nat
  | block | sign | parens => 1
  | chain before _ => before

/-- The nodes of a construct that stand above the operand in the tree. -/
def nodes : Surrounding → Nat
  | block | sign => 1
  | parens => 0
  | chain before behind => min before 1 + behind

/-- The sum of a count over all surroundings. -/
def total (count : Surrounding → Nat) : List Surrounding → Nat
  | [] => 0
  | surrounding :: around => count surrounding + total count around

end Surrounding

open Surrounding (total)

/-! ## Operands of expressions -/

/-- A number of operators of a tier behind `left`. -/
inductive ReadsOperators (t : Tier) : Nat → Node → TokenStream → Node → TokenStream → Prop where
  | none {s : TokenStream} {left : Node} (other : t.operator? s.current.token = none) :
    ReadsOperators t 0 left s left s
  | more {s s₁ s₂ s₃ : TokenStream} {left right n : Node} {d k : Nat} {token : Token}
      {op : BinaryOp}
      (sign : t.operator? token = some op) (take : s.deeper.Takes token s₁)
      (operand : ReadsExpression (.tiers t.tighter) d s₁ right s₂)
      (operators : ReadsOperators t k (.binary (s₂.originAt s.current.line) op left right)
        s₂.numbered n s₃) :
    ReadsOperators t (k + 1) left s n s₃.shallower

/-- An operand stands in the expression that a rule reads, with the given surroundings. The rule for
the operators of a chain reads the operands behind them only. -/
inductive OperandInExpression :
    ExpressionRule → TokenStream → Node → TokenStream → List Surrounding → Prop where
  | here {s s' : TokenStream} {n : Node} (read : ReadsExpression .factor 0 s n s') :
    OperandInExpression .factor s n s' []
  | parens {s s₁ s₂ s₃ : TokenStream} {n : Node} {around : List Surrounding}
      (left : s.deeper.Takes (.mark .openParen) s₁)
      (inner : OperandInExpression (.tiers Tier.all) s₁ n s₂ around)
      (right : s₂.Takes (.mark .closeParen) s₃) :
    OperandInExpression .factor s n s₃.shallower (.parens :: around)
  | sign {s s₁ s₂ : TokenStream} {n : Node} {token : Token} {op : UnaryOp}
      {around : List Surrounding} (sign : prefixOperator? token = some op)
      (take : s.deeper.Takes token s₁) (operand : OperandInExpression .factor s₁ n s₂ around) :
    OperandInExpression .factor s (.unary (s₂.shallower.originAt s.current.line) op n)
      s₂.shallower.numbered (.sign :: around)
  | atom {s s' : TokenStream} {n : Node} {around : List Surrounding}
      (factor : OperandInExpression .factor s n s' around) :
    OperandInExpression (.tiers []) s n s' around
  | first {s s₁ s' : TokenStream} {first n : Node} {t : Tier} {ts : List Tier} {k : Nat}
      {around : List Surrounding} (operand : OperandInExpression (.tiers ts) s first s₁ around)
      (operators : ReadsOperators t k first s₁ n s') :
    OperandInExpression (.tiers (t :: ts)) s n s' (.chain 0 k :: around)
  | later {s s₁ s' : TokenStream} {first n : Node} {t : Tier} {ts : List Tier} {d : Nat}
      {around : List Surrounding} (operand : ReadsExpression (.tiers ts) d s first s₁)
      (operators : OperandInExpression (.chain t first) s₁ n s' around) :
    OperandInExpression (.tiers (t :: ts)) s n s' around
  | next {s s₁ s₂ s₃ : TokenStream} {t : Tier} {left right n : Node} {k : Nat} {token : Token}
      {op : BinaryOp} {around : List Surrounding} (sign : t.operator? token = some op)
      (take : s.deeper.Takes token s₁)
      (operand : OperandInExpression (.tiers t.tighter) s₁ right s₂ around)
      (operators : ReadsOperators t k (.binary (s₂.originAt s.current.line) op left right)
        s₂.numbered n s₃) :
    OperandInExpression (.chain t left) s n s₃.shallower (.chain 1 k :: around)
  | behind {s s₁ s₂ s₃ : TokenStream} {t : Tier} {left right n : Node} {d j k : Nat} {token : Token}
      {op : BinaryOp} {around : List Surrounding} (sign : t.operator? token = some op)
      (take : s.deeper.Takes token s₁) (operand : ReadsExpression (.tiers t.tighter) d s₁ right s₂)
      (operators : OperandInExpression
        (.chain t (.binary (s₂.originAt s.current.line) op left right)) s₂.numbered n s₃
        (.chain (j + 1) k :: around)) :
    OperandInExpression (.chain t left) s n s₃.shallower (.chain (j + 2) k :: around)

section
variable {t : Tier} {k : Nat} {left n : Node} {s s' : TokenStream}

/-- A number of operators behind a left operand is read as a chain. -/
theorem ReadsOperators.reads (h : ReadsOperators t k left s n s') :
    ∃ d, ReadsExpression (.chain t left) d s n s' := by
  induction h with
  | none other => exact ⟨0, .stop other⟩
  | more sign take operand _ ih =>
    obtain ⟨d', read⟩ := ih
    exact ⟨_, .more sign take operand read⟩

/-- All operators of a chain stand above what stands before them. -/
theorem ReadsOperators.path (h : ReadsOperators t k left s n s') {p : List (Node × Bool)}
    (path : left.IsPath p) : ∃ p', n.IsPath p' ∧ Node.nesting p' = Node.nesting p + k := by
  induction h generalizing p with
  | none => exact ⟨p, path, rfl⟩
  | @more s _ s₂ _ left right _ _ k _ op _ _ _ _ ih =>
    let o := s₂.originAt s.current.line
    have hstep : (Node.binary o op left right).IsPath ((.binary o op left right, true) :: p) :=
      .step (.head _) path
    obtain ⟨p', path', hp'⟩ := ih hstep
    rw [Node.nesting_cons] at hp'
    exact ⟨p', path', hp'.trans (by simp only [Node.nests, if_true]; omega)⟩

variable {r : ExpressionRule} {around : List Surrounding}

/-- The expression is read, and within no fewer levels than are open at the operand. -/
theorem OperandInExpression.reads (h : OperandInExpression r s n s' around) :
    ∃ d, total Surrounding.levels around ≤ d ∧ ReadsExpression r d s n s' := by
  induction h with
  | here read => exact ⟨0, Nat.le.refl, read⟩
  | parens left _ right ih =>
    obtain ⟨d, hd, read⟩ := ih
    exact ⟨d + 1, by simp only [total, Surrounding.levels]; omega, .parens left read right⟩
  | sign sign take _ ih =>
    obtain ⟨d, hd, read⟩ := ih
    exact ⟨d + 1, by simp only [total, Surrounding.levels]; omega, .prefixed sign take read⟩
  | atom _ ih =>
    obtain ⟨d, hd, read⟩ := ih
    exact ⟨d, hd, .atom read⟩
  | first _ operators ih =>
    obtain ⟨d, hd, read⟩ := ih
    obtain ⟨d', read'⟩ := operators.reads
    exact ⟨max d d', by simp only [total, Surrounding.levels]; omega, .tier read read'⟩
  | @later _ _ _ _ _ _ _ d _ operand _ ih =>
    obtain ⟨d', hd', read'⟩ := ih
    exact ⟨max d d', by omega, .tier operand read'⟩
  | next sign take _ operators ih =>
    obtain ⟨d, hd, read⟩ := ih
    obtain ⟨d', read'⟩ := operators.reads
    exact ⟨max d d' + 1, by simp only [total, Surrounding.levels]; omega,
      .more sign take read read'⟩
  | @behind _ _ _ _ _ _ _ _ d _ _ _ _ _ sign take operand _ ih =>
    obtain ⟨d', hd', read'⟩ := ih
    simp only [total, Surrounding.levels] at hd'
    exact ⟨max d d' + 1, by simp only [total, Surrounding.levels]; omega,
      .more sign take operand read'⟩

/-- A path through the tree leads to the operand. -/
theorem OperandInExpression.path (h : OperandInExpression r s n s' around) :
    ∃ p, n.IsPath p ∧ Node.nesting p = total Surrounding.nodes around := by
  induction h with
  | here read =>
    cases read <;> exact ⟨_, .leaf rfl, rfl⟩
  | parens _ _ _ ih =>
    obtain ⟨p, path, hp⟩ := ih
    exact ⟨p, path, by simp only [total, Surrounding.nodes]; omega⟩
  | @sign s _ s₂ n _ op _ _ _ _ ih =>
    obtain ⟨p, path, hp⟩ := ih
    refine ⟨_, .step (.head _) path, ?_⟩
    rw [Node.nesting_cons, hp, Nat.add_comm]
    rfl
  | atom _ ih | later _ _ ih => exact ih
  | first _ operators ih =>
    obtain ⟨p, path, hp⟩ := ih
    obtain ⟨p', path', hp'⟩ := operators.path path
    exact ⟨p', path', by simp only [total, Surrounding.nodes]; omega⟩
  | @next s _ s₂ _ _ left right _ _ _ op _ _ _ _ operators ih =>
    obtain ⟨p, path, hp⟩ := ih
    let o := s₂.originAt s.current.line
    have hstep : (Node.binary o op left right).IsPath ((.binary o op left right, false) :: p) :=
      .step (.tail _ (.head _)) path
    obtain ⟨p', path', hp'⟩ := operators.path hstep
    rw [Node.nesting_cons] at hp'
    simp only [Node.nests, if_true] at hp'
    exact ⟨p', path', by simp only [total, Surrounding.nodes]; omega⟩
  | behind _ _ _ _ ih =>
    obtain ⟨p, path, hp⟩ := ih
    simp only [total, Surrounding.nodes] at hp
    exact ⟨p, path, by simp only [total, Surrounding.nodes]; omega⟩

end

/-- Every path through what a rule reads leads to an operand of it. In a chain it can also lead on
to what stands before the operators, below all of them. -/
def ExpressionRule.Surrounds (s : TokenStream) (n : Node) (s' : TokenStream) :
    ExpressionRule → Prop
  | r@factor | r@(tiers _) => ∀ p, n.IsPath p →
    ∃ around, OperandInExpression r s n s' around ∧ total Surrounding.nodes around = Node.nesting p
  | chain t left => ∃ k, ReadsOperators t k left s n s' ∧ ∀ p, n.IsPath p →
    (∃ p', left.IsPath p' ∧ Node.nesting p = Node.nesting p' + k) ∨
    ∃ j k around, OperandInExpression (.chain t left) s n s' (.chain (j + 1) k :: around) ∧
      total Surrounding.nodes (.chain (j + 1) k :: around) = Node.nesting p

/-- Every path through what is read as an expression leads to an operand. -/
theorem ReadsExpression.surrounds {r : ExpressionRule} {d : Nat} {s s' : TokenStream} {n : Node}
    (h : ReadsExpression r d s n s') : r.Surrounds s n s' := by
  have hleaf : ∀ {s n s'}, ReadsExpression .factor 0 s n s' → n.children = [] → n.nests = false →
      n.exits = [] → ExpressionRule.factor.Surrounds s n s' := by
    intro s n s' read hchildren hnests hexits p path
    refine ⟨[], .here read, ?_⟩
    cases path with
    | leaf => simp [total, Node.nesting, hnests]
    | step hexit => simp [hexits] at hexit
  induction h with
  | int take => exact hleaf (.int take) rfl rfl rfl
  | str take => exact hleaf (.str take) rfl rfl rfl
  | bool take => exact hleaf (.bool take) rfl rfl rfl
  | ident take => exact hleaf (.ident take) rfl rfl rfl
  | scan word left right => exact hleaf (.scan word left right) rfl rfl rfl
  | parens left _ right ih =>
    intro p path
    obtain ⟨around, operand, hnodes⟩ := ih p path
    exact ⟨_, .parens left operand right, by simp only [total, Surrounding.nodes]; omega⟩
  | prefixed sign take _ ih =>
    intro p path
    cases path with
    | leaf h => cases h
    | @step _ part left p hexit path =>
      obtain ⟨rfl, rfl⟩ : part = _ ∧ left = false := by
        simpa [Node.exits, Node.children] using hexit
      obtain ⟨around, operand, hnodes⟩ := ih p path
      refine ⟨_, .sign sign take operand, ?_⟩
      rw [Node.nesting_cons, ← hnodes, Nat.add_comm]
      rfl
  | atom _ ih =>
    intro p path
    obtain ⟨around, operand, hnodes⟩ := ih p path
    exact ⟨around, .atom operand, hnodes⟩
  | tier first _ ih ih' =>
    intro p path
    obtain ⟨k, operators, hpaths⟩ := ih'
    rcases hpaths p path with ⟨p', path', hp'⟩ | ⟨j, k, around, operand, hnodes⟩
    · obtain ⟨around, operand, hnodes⟩ := ih p' path'
      exact ⟨_, .first operand operators, by simp only [total, Surrounding.nodes]; omega⟩
    · exact ⟨_, .later first operand, hnodes⟩
  | stop other => exact ⟨0, .none other, fun p path => .inl ⟨p, path, rfl⟩⟩
  | @more s s₁ s₂ s₃ t left right n d d' token op sign take operand _ ih ih' =>
    obtain ⟨k, operators, hpaths⟩ := ih'
    refine ⟨k + 1, .more sign take operand operators, fun p path => ?_⟩
    rcases hpaths p path with ⟨p', path', hp'⟩ | ⟨j, k, around, later, hnodes⟩
    · -- The path comes down to this operator, and leaves it to the left or to the right.
      cases path' with
      | leaf h => cases h
      | @step _ part side p' hexit path' =>
        rw [Node.nesting_cons] at hp'
        simp only [Node.nests, if_true] at hp'
        obtain ⟨rfl, rfl⟩ | ⟨rfl, rfl⟩ :
            part = left ∧ side = true ∨ part = right ∧ side = false := by
          simpa [Node.exits] using hexit
        · exact .inl ⟨p', path', by omega⟩
        · obtain ⟨around, operand, hnodes⟩ := ih p' path'
          exact .inr ⟨0, k, around, .next sign take operand operators,
            by simp only [total, Surrounding.nodes]; omega⟩
    · refine .inr ⟨j + 1, k, around, .behind sign take operand later, ?_⟩
      simp only [total, Surrounding.nodes] at hnodes ⊢
      omega

/-! ## Expressions of a program -/

/-- Each whole expression of a node is a single word, or is read behind `s`, inside of its blocks
and within as many levels as these leave. -/
def FoundBehind (s : TokenStream) (levels : Nat) (n : Node) : Prop :=
  ∀ blocks e, n.HasExpression blocks e → e.children = [] ∨ ∃ w t t' d, s.Spans w t ∧
    t.depth = s.depth + blocks ∧ d + blocks ≤ levels ∧ ReadsExpression (.tiers Tier.all) d t e t'

section
variable {s s₁ s' : TokenStream} {d d' k : Nat} {n : Node}

/-- What is read within some levels is read within more of them. -/
theorem FoundBehind.mono (h : FoundBehind s d n) (hd : d ≤ d') : FoundBehind s d' n := by
  intro blocks e inner
  refine (h blocks e inner).imp id fun ⟨w, t, t', d₁, hspan, hdepth, hd₁, read⟩ => ?_
  exact ⟨w, t, t', d₁, hspan, hdepth, Nat.le_trans hd₁ hd, read⟩

/-- What is read behind a stream is read behind every stream before it. -/
theorem FoundBehind.after (h : FoundBehind s₁ d n) (before : s.Advances k s₁) :
    FoundBehind s d n := by
  intro blocks e inner
  refine (h blocks e inner).imp id fun ⟨w', t, t', d₁, hspan, hdepth, hd₁, read⟩ => ?_
  obtain ⟨w, -, hspan'⟩ := before.spans
  exact ⟨w ++ w', t, t', d₁, hspan'.trans hspan, by rw [hdepth, before.depth_eq], hd₁, read⟩

/-- A node that is no expression and no block adds nothing to its parts. -/
theorem foundBehind_of_parts (hn : n.isExpression = false) (hblock : n.nests = false)
    (h : ∀ part ∈ n.children, FoundBehind s d part) : FoundBehind s d n := by
  intro blocks e inner
  obtain ⟨part, hpart, inside, hinside, rfl⟩ := inner.of_part hn
  simpa [hblock] using h part hpart inside e hinside

/-- A block takes a level. -/
theorem foundBehind_block {o : Origin} {body : List Node}
    (h : ∀ n ∈ body, FoundBehind s.deeper d n) : FoundBehind s (d + 1) (.block o body) := by
  intro blocks e inner
  obtain ⟨part, hpart, inside, hinside, rfl⟩ := inner.of_part rfl
  refine (h part hpart inside e hinside).imp id fun ⟨w, t, t', d₁, hspan, hdepth, hd₁, read⟩ => ?_
  rw [TokenStream.depth_deeper] at hdepth
  simp only [Node.nests, if_true]
  exact ⟨w, t, t', d₁, hspan, by omega, by omega, read⟩

/-- A name is a single word. -/
theorem foundBehind_ident {o : Origin} {name : String} : FoundBehind s d (.ident o name) := by
  intro blocks e inner
  obtain ⟨-, rfl⟩ := inner.eq_self rfl
  exact .inl rfl

/-- The whole expressions of a field are single words. -/
theorem ReadsField.foundBehind (h : ReadsField s₁ n s') : FoundBehind s d n :=
  fun _ _ inner => .inl (h.isField.children_eq_nil inner)

/-- An expression is found where it is read. -/
theorem ReadsExpression.foundBehind (h : ReadsExpression (.tiers Tier.all) d s n s') :
    FoundBehind s d n := by
  intro blocks e inner
  obtain ⟨rfl, rfl⟩ := inner.eq_self (h.isExpression nofun).isExpression
  exact .inr ⟨[], s, s', d, .refl s, rfl, Nat.le_refl _, h⟩

end

/-- The expressions of what a rule reads are found where it reads. -/
theorem ReadsBlock.foundBehind {r : BlockRule} {d : Nat} {s s' : TokenStream} {ns : List Node}
    (h : ReadsBlock r d s ns s') (hs : s.Ended) : ∀ n ∈ ns, FoundBehind s d n := by
  induction h with
  | block left newline _ ih =>
    have before := (left.advances hs).step newline.advances
    refine List.forall_mem_singleton.2 (foundBehind_block fun n hn => ?_)
    exact (ih before.ended n hn).after before
  | close | formClose => simp
  | field first _ ih =>
    refine List.forall_mem_cons.2 ⟨first.foundBehind, fun n hn => ?_⟩
    exact (ih (first.advances hs).ended n hn).after (first.advances hs)
  | @statement _ _ _ d d' _ _ first _ ih ih' =>
    have before := first.advances hs
    refine List.forall_mem_cons.2 ⟨(ih hs _ (.head _)).mono (Nat.le_max_left d d'), fun n hn => ?_⟩
    exact ((ih' before.ended n hn).after before).mono (Nat.le_max_right d d')
  | print word left expr =>
    have before := (word.advances hs).step left.advances
    refine List.forall_mem_singleton.2 (foundBehind_of_parts rfl rfl ?_)
    exact List.forall_mem_singleton.2 (expr.foundBehind.after before)
  | declare | blank => exact List.forall_mem_singleton.2 (foundBehind_of_parts rfl rfl nofun)
  | declareInit word title sort sign init =>
    have before := ((word.advances hs).step title.advances).step sort.advances
    refine List.forall_mem_singleton.2 (foundBehind_of_parts rfl rfl ?_)
    exact List.forall_mem_singleton.2 (init.foundBehind.after (before.step sign.advances))
  | assign title sign value =>
    have before := (title.advances hs).numbered.step sign.advances
    refine List.forall_mem_singleton.2 (foundBehind_of_parts rfl rfl ?_)
    exact forall_mem_pair foundBehind_ident (value.foundBehind.after before)
  | @loop _ _ _ _ _ d d' _ _ word condition _ _ ih
  | @branch _ _ _ _ _ d d' _ _ word condition _ _ ih =>
    have before := word.advances hs
    have behind := before.step condition.advances
    have hcondition := (condition.foundBehind.after before).mono (Nat.le_max_left d d')
    have hblock := ((ih behind.ended _ (.head _)).after behind).mono (Nat.le_max_right d d')
    exact List.forall_mem_singleton.2
      (foundBehind_of_parts rfl rfl (forall_mem_pair hcondition hblock))
  | @branchElse _ _ _ _ _ _ _ d d' d'' _ _ _ word condition read other _ _ ih ih' =>
    have before := word.advances hs
    have behind := before.step condition.advances
    have last := (behind.step read.advances).step other.advances
    have hcondition := (condition.foundBehind.after before).mono
      (show d ≤ max d (max d' d'') by omega)
    have hblock := ((ih behind.ended _ (.head _)).after behind).mono
      (show d' ≤ max d (max d' d'') by omega)
    have hother := ((ih' last.ended _ (.head _)).after last).mono
      (show d'' ≤ max d (max d' d'') by omega)
    refine List.forall_mem_singleton.2 (foundBehind_of_parts rfl rfl ?_)
    exact List.forall_mem_cons.2 ⟨hcondition, forall_mem_pair hblock hother⟩
  | formLine _ _ ih | formBare _ _ ih => exact ih hs
  | form word title left _ ih =>
    have before := ((word.advances hs).step title.advances).step left.advances
    refine List.forall_mem_singleton.2 (foundBehind_of_parts rfl rfl fun n hn => ?_)
    exact (ih before.ended n hn).after before
  | formField skip first _ ih =>
    have before := (skip.advances hs).step first.advances
    exact List.forall_mem_cons.2
      ⟨first.foundBehind, fun n hn => (ih before.ended n hn).after before⟩
  | @formBlock _ _ _ _ _ _ d d' d'' c _ _ _ _ skip word condition read _ _ ih ih' =>
    have before := (skip.advances hs).step word.advances
    have behind := before.step condition.advances
    have last := (behind.step read.advances).numbered
    have hcondition := (condition.foundBehind.after before).mono
      (show d ≤ max (max d d') d'' by omega)
    have hblock := ((ih behind.ended _ (.head _)).after behind).mono
      (show d' ≤ max (max d d') d'' by omega)
    refine List.forall_mem_cons.2 ⟨?_, fun n hn => ?_⟩
    · refine foundBehind_of_parts (by cases c <;> rfl) (by cases c <;> rfl) ?_
      rw [FormContainer.children_toNode]
      exact forall_mem_pair hcondition hblock
    · exact ((ih' last.ended n hn).after last).mono (Nat.le_max_right _ _)

/-! ## Operands of a program -/

/-- An operand of the program in a text has the given surroundings: the blocks around the whole
expression that it stands in, and what stands around it where the parser reads that expression. -/
inductive OperandIn (source : String) : List Surrounding → Prop where
  | intro {s t t' : TokenStream} {w : List Token} {root e : Node} {blocks : Nat}
      {around : List Surrounding} (parsed : parse source = .ok root)
      (expression : root.HasExpression blocks e)
      (stream : TokenStream.ofText (Text.stripComments source) = .ok s) (place : s.Spans w t)
      (depth : t.depth = blocks) (read : Grammar.expression t = .ok e t')
      (operand : OperandInExpression (.tiers Tier.all) t e t' around) :
    OperandIn source (List.replicate blocks .block ++ around)

/-- Each block counts one. -/
theorem total_blocks {count : Surrounding → Nat} (hblock : count .block = 1) (blocks : Nat)
    (around : List Surrounding) :
    total count (List.replicate blocks .block ++ around) = blocks + total count around := by
  induction blocks with
  | zero => exact (Nat.zero_add _).symm
  | succ blocks ih =>
    rw [List.replicate_succ, List.cons_append, total, ih, hblock]
    omega

/-- The parser gives a whole expression that is read, where its levels suffice. -/
theorem ReadsExpression.expression_yields {d : Nat} {s s' : TokenStream} {n : Node}
    (h : ReadsExpression (.tiers Tier.all) d s n s') :
    Parse.Yields (Grammar.expression s) (d ≤ maxDepth - s.depth) n s' :=
  h.yields (maxDepth - s.depth)

section
variable {source : String} {root : Node} {around : List Surrounding}

/-- A path through the tree leads to the operand. -/
theorem OperandIn.path (h : OperandIn source around) (hparse : parse source = .ok root) :
    ∃ p, root.IsPath p ∧ Node.nesting p = total Surrounding.nodes around := by
  obtain ⟨parsed, expression, stream, place, depth, read, operand⟩ := h
  cases parsed.symm.trans hparse
  obtain ⟨p, path, hp⟩ := operand.path
  obtain ⟨p', path', hp', -⟩ := expression.path path
  exact ⟨p', path', by rw [total_blocks rfl, hp', hp]⟩

/-- At an operand no more levels are open than the deepest. -/
theorem OperandIn.levels_le (h : OperandIn source around) :
    total Surrounding.levels around ≤ maxDepth := by
  cases h with
  | @intro _ t _ _ _ _ blocks around parsed expression _ _ depth read operand =>
    obtain ⟨d, hd, reads⟩ := operand.reads
    have hfits : d ≤ maxDepth - t.depth := by
      by_contra hdeep
      obtain ⟨line, construct, s', herror⟩ := reads.expression_yields.2 hdeep
      cases read.symm.trans herror
    obtain ⟨p, path, -⟩ := operand.path
    obtain ⟨p', path', -, hopen⟩ := expression.path path
    have hblocks := (nestsWithin_of_parse parsed p' path').1
    rw [total_blocks rfl]
    omega

/-- Every path through the tree leads to an operand of the program, or leaves no operator through
its left operand. -/
theorem exists_operandIn (hparse : parse source = .ok root) {p : List (Node × Bool)}
    (path : root.IsPath p) : Node.nesting p ≤ Node.openNesting p ∨
      ∃ around, OperandIn source around ∧ total Surrounding.nodes around = Node.nesting p := by
  rcases path.to_expression with heq | ⟨blocks, e, p', expression, path', hp, hopen⟩
  · exact .inl heq.le
  obtain ⟨s, s', d, stream, hd, read⟩ := parse_ok hparse
  obtain ⟨before, read, -, -⟩ := read
  have hbefore := before.advances (TokenStream.ended_of_ofText stream)
  have hfound := (read.foundBehind hbefore.ended root (.head _)).after hbefore
  rcases hfound blocks e expression with hword | ⟨w, t, t', d', place, depth, hd', read⟩
  · have hzero := expression.nesting_of_word hword path'
    exact .inl (by omega)
  · rw [(TokenStream.ofText_ok stream).2, Nat.zero_add] at depth
    obtain ⟨around, operand, hnodes⟩ := read.surrounds p' path'
    have hrun := read.expression_yields.1 (by omega)
    refine .inr ⟨_, .intro hparse expression stream place depth hrun operand, ?_⟩
    rw [total_blocks rfl, hnodes, hp]

end

/-- When the tree of a program is no deeper than the levels that the parser can open: if around each
operand of the text the blocks, the prefix operators and, for each chain, the operator in front of
the operand and those behind it are no more than the levels. The levels that are open at an operand
always are. On a path through the tree the blocks and operators that it does not leave through their
left operand can use up all levels, and with the others there can be 40642 of them. -/
theorem nesting_within_iff {source : String} {root : Node} (h : parse source = .ok root) :
    ((∀ p, root.IsPath p → Node.nesting p ≤ maxDepth) ↔
      ∀ around, OperandIn source around → total Surrounding.nodes around ≤ maxDepth) ∧
    (∀ around, OperandIn source around → total Surrounding.levels around ≤ maxDepth) ∧
    IsGreatest {k | ∃ source root p, parse source = .ok root ∧ root.IsPath p ∧
      Node.openNesting p = k} maxDepth ∧
    IsGreatest {k | ∃ source root p, parse source = .ok root ∧ root.IsPath p ∧
      Node.nesting p = k} 40642 := by
  refine ⟨⟨fun hpaths around operand => ?_, fun hoperands p path => ?_⟩,
    fun _ => OperandIn.levels_le, parse_nesting_isGreatest.2, parse_nesting_isGreatest.1⟩
  · obtain ⟨p, path, hp⟩ := operand.path h
    exact hp ▸ hpaths p path
  · rcases exists_operandIn h path with hopen | ⟨around, operand, hnodes⟩
    · exact Nat.le_trans hopen (nestsWithin_of_parse h p path).1
    · exact hnodes ▸ hoperands around operand

/-- The first operand of a product that is the first operand of a sum stands below both, and in a
block. -/
theorem nesting_within_of_sum : ∃ root around, parse "\x7b\nx=1*2+3\n\x7d" = .ok root ∧
    OperandIn "\x7b\nx=1*2+3\n\x7d" around ∧ total Surrounding.nodes around = 3 ∧
    ((∀ p, root.IsPath p → Node.nesting p ≤ maxDepth) ↔
      ∀ around, OperandIn "\x7b\nx=1*2+3\n\x7d" around →
        total Surrounding.nodes around ≤ maxDepth) := by
  let root := Node.block ⟨7, 1⟩ [.assign ⟨6, 2⟩ (.ident ⟨0, 2⟩ "x") (.binary ⟨5, 2⟩ .add
    (.binary ⟨3, 2⟩ .mul (.int ⟨1, 2⟩ 1) (.int ⟨2, 2⟩ 2)) (.int ⟨4, 2⟩ 3))]
  have hparse : parse "\x7b\nx=1*2+3\n\x7d" = .ok root := by decide +kernel
  have path : root.IsPath _ := .step (.head _) (.step (.tail _ (.head _)) (.step (.head _)
    (.step (.head _) (.leaf rfl))))
  rcases exists_operandIn hparse path with hopen | ⟨around, operand, hnodes⟩
  · exact absurd hopen (by decide)
  · exact ⟨root, around, hparse, operand, hnodes, (nesting_within_iff hparse).1⟩

end Grammar

end FormScript
