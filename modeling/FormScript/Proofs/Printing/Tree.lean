import FormScript.Proofs.Derivation.Basic
import FormScript.Proofs.Printing.Token
import FormScript.Proofs.Shape

/-!
# Printed trees

The relations `PrintsExpression`, `PrintsField` and `PrintsBlock` say which tokens write a tree.
They leave one choice open: an expression may stand in parentheses wherever it could stand without
them, any number of times, and has to where the tiers of the operators demand it. All else is fixed:
a statement ends with its line end, a form is followed by one, a field by nothing, and properties
and items are divided by commas.

The relations for expressions and blocks also count the levels of nesting that reading the tokens
takes: one for a pair of parentheses, a prefix operator or a block around something, and one for
each operator of a chain, which lasts to the end of the chain.

`Node.WellFormed` says which trees have a text. Each of them has a printing (`exists_printsBlock`),
and the tokens of its printings can all be written (`PrintsBlock.writable`).
-/

namespace FormScript

/-- The mark that writes a prefix operator. -/
def UnaryOp.mark : UnaryOp → Mark
  | plus => .plus
  | minus => .minus
  | not => .bang

/-- The mark that writes an infix operator. -/
def BinaryOp.mark : BinaryOp → Mark
  | add => .plus
  | sub => .minus
  | mul => .star
  | div => .slash
  | equal => .equalEqual
  | greater => .greater
  | less => .less
  | and => .andAnd
  | or => .orOr

namespace Grammar

/-- The tier of an infix operator. -/
def tierOf : BinaryOp → Tier
  | .add | .sub => .sum
  | .mul | .div => .product
  | .equal | .greater | .less => .relation
  | .and => .and
  | .or => .or

/-- The mark of an infix operator is read as this operator in its own tier. -/
theorem operator?_mark (op : BinaryOp) : (tierOf op).operator? (.mark op.mark) = some op := by
  cases op <;> rfl

/-- The mark of an infix operator is a sign of its tier. -/
theorem mark_mem_signs (op : BinaryOp) : op.mark ∈ (tierOf op).signs := by
  cases op <;> decide

/-- The mark of a prefix operator is read as this operator. -/
theorem prefixOperator?_mark (op : UnaryOp) : prefixOperator? (.mark op.mark) = some op := by
  cases op <;> rfl

/-! ## Expressions -/

/-- A token writes a literal. -/
inductive PrintsLiteral : Node → Token → Prop where
  | int (o : Origin) (k : Int64) : PrintsLiteral (.int o k) (.integer k)
  | str (o : Origin) (content : String) : PrintsLiteral (.str o content) (.text content)
  | bool (o : Origin) (b : Bool) : PrintsLiteral (.bool o b) (.boolean b)

/-- A way to write an expression: as a factor, with bare operators of the given tiers only, or as a
chain of a number of operators of one tier. -/
inductive Layout where
  | factor
  | tiers (ts : List Tier)
  | chain (t : Tier) (operators : Nat)

/-- The tokens write an expression in a layout, with a depth of nesting. -/
inductive PrintsExpression : Layout → Nat → Node → List Token → Prop where
  | literal {n : Node} {token : Token} (literal : PrintsLiteral n token) :
    PrintsExpression .factor 0 n [token]
  | ident (o : Origin) (name : String) : PrintsExpression .factor 0 (.ident o name)
      [.identifier name]
  | scan (o : Origin) :
    PrintsExpression .factor 0 (.scan o) [.keyword .scan, .mark .openParen, .mark .closeParen]
  | parens {d : Nat} {n : Node} {w : List Token}
      (inner : PrintsExpression (.tiers Tier.all) d n w) :
    PrintsExpression .factor (d + 1) n ([.mark .openParen] ++ w ++ [.mark .closeParen])
  | unary {d : Nat} {n : Node} {w : List Token} (o : Origin) (op : UnaryOp)
      (operand : PrintsExpression .factor d n w) :
    PrintsExpression .factor (d + 1) (.unary o op n) ([.mark op.mark] ++ w)
  | atom {d : Nat} {n : Node} {w : List Token} (factor : PrintsExpression .factor d n w) :
    PrintsExpression (.tiers []) d n w
  | tier {d k : Nat} {t : Tier} {n : Node} {w : List Token}
      (chain : PrintsExpression (.chain t k) d n w) :
    PrintsExpression (.tiers (t :: t.tighter)) d n w
  | first {d : Nat} {t : Tier} {n : Node} {w : List Token}
      (operand : PrintsExpression (.tiers t.tighter) d n w) :
    PrintsExpression (.chain t 0) d n w
  | more {d d' k : Nat} {left right : Node} {w w' : List Token} (o : Origin) (op : BinaryOp)
      (operators : PrintsExpression (.chain (tierOf op) k) d left w)
      (operand : PrintsExpression (.tiers (tierOf op).tighter) d' right w') :
    PrintsExpression (.chain (tierOf op) (k + 1)) (max d (k + 1 + d')) (.binary o op left right)
      (w ++ [.mark op.mark] ++ w')

/-! ## Fields -/

/-- A token writes an item of an array. -/
inductive PrintsItem : Node → Token → Prop where
  | str (o : Origin) (content : String) : PrintsItem (.str o content) (.text content)
  | ident (o : Origin) (name : String) : PrintsItem (.ident o name) (.identifier name)

/-- The tokens write the items of an array. -/
inductive PrintsItems : List Node → List Token → Prop where
  | none : PrintsItems [] []
  | one {n : Node} {token : Token} (item : PrintsItem n token) : PrintsItems [n] [token]
  | more {n m : Node} {ns : List Node} {token : Token} {w : List Token} (item : PrintsItem n token)
      (rest : PrintsItems (m :: ns) w) :
    PrintsItems (n :: m :: ns) ([token, .mark .comma] ++ w)

/-- The tokens write a property. -/
inductive PrintsProperty : Node → List Token → Prop where
  | scalar {n : Node} {token : Token} (o : Origin) (key : String)
      (literal : PrintsLiteral n token) :
    PrintsProperty (.scalar o key n) [.identifier key, .mark .colon, token]
  | array {ns : List Node} {w : List Token} (o : Origin) (key : String) (items : PrintsItems ns w) :
    PrintsProperty (.array o key ns)
      ([.identifier key, .mark .colon, .mark .openBracket] ++ w ++ [.mark .closeBracket])

/-- The tokens write the properties of a field. -/
inductive PrintsProperties : List Node → List Token → Prop where
  | none : PrintsProperties [] []
  | one {n : Node} {w : List Token} (property : PrintsProperty n w) : PrintsProperties [n] w
  | more {n m : Node} {ns : List Node} {w w' : List Token} (property : PrintsProperty n w)
      (rest : PrintsProperties (m :: ns) w') :
    PrintsProperties (n :: m :: ns) (w ++ [.mark .comma] ++ w')

/-- The tokens write a field declaration. -/
inductive PrintsField : Node → List Token → Prop where
  | intro {ns : List Node} {w : List Token} (o : Origin) (kind : FieldKind) (name : String)
      (properties : PrintsProperties ns w) :
    PrintsField (.field o kind name ns)
      ([.fieldKind kind, .identifier name, .mark .openBrace] ++ w ++ [.mark .closeBrace])

/-! ## Blocks -/

/-- What is written: a block, the lines of a block, one line, or the children of a form. -/
inductive BlockPart where
  | block
  | lines
  | line
  | children

/-- The tokens write nodes, with a depth of nesting. -/
inductive PrintsBlock : BlockPart → Nat → List Node → List Token → Prop where
  | block {d : Nat} {body : List Node} {w : List Token} (o : Origin)
      (lines : PrintsBlock .lines d body w) :
    PrintsBlock .block (d + 1) [.block o body]
      ([.mark .openBrace, .newline] ++ w ++ [.mark .closeBrace])
  | noLine : PrintsBlock .lines 0 [] []
  | line {d d' : Nat} {n : Node} {ns : List Node} {w w' : List Token}
      (first : PrintsBlock .line d [n] w) (rest : PrintsBlock .lines d' ns w') :
    PrintsBlock .lines (max d d') (n :: ns) (w ++ w')
  | field {n : Node} {w : List Token} (field : PrintsField n w) : PrintsBlock .line 0 [n] w
  | print {d : Nat} {e : Node} {w : List Token} (o : Origin)
      (expr : PrintsExpression (.tiers Tier.all) d e w) :
    PrintsBlock .line d [.print o e]
      ([.keyword .print, .mark .openParen] ++ w ++ [.mark .closeParen, .newline])
  | declare (o : Origin) (name : String) (type : Ty) :
    PrintsBlock .line 0 [.declare o name type none]
      [.keyword .declare, .identifier name, .typeName type, .newline]
  | declareInit {d : Nat} {e : Node} {w : List Token} (o : Origin) (name : String) (type : Ty)
      (init : PrintsExpression (.tiers Tier.all) d e w) :
    PrintsBlock .line d [.declare o name type (some e)]
      ([.keyword .declare, .identifier name, .typeName type, .mark .assign] ++ w ++ [.newline])
  | assign {d : Nat} {e : Node} {w : List Token} (o o' : Origin) (name : String)
      (value : PrintsExpression (.tiers Tier.all) d e w) :
    PrintsBlock .line d [.assign o (.ident o' name) e]
      ([.identifier name, .mark .assign] ++ w ++ [.newline])
  | loop {d d' : Nat} {e body : Node} {w w' : List Token} (o : Origin)
      (condition : PrintsExpression (.tiers Tier.all) d e w)
      (block : PrintsBlock .block d' [body] w') :
    PrintsBlock .line (max d d') [.loop o e body] ([.keyword .loop] ++ w ++ w' ++ [.newline])
  | branch {d d' : Nat} {e positive : Node} {w w' : List Token} (o : Origin)
      (condition : PrintsExpression (.tiers Tier.all) d e w)
      (block : PrintsBlock .block d' [positive] w') :
    PrintsBlock .line (max d d') [.branch o e positive none]
      ([.keyword .branch] ++ w ++ w' ++ [.newline])
  | branchElse {d d' d'' : Nat} {e positive negative : Node} {w w' w'' : List Token} (o : Origin)
      (condition : PrintsExpression (.tiers Tier.all) d e w)
      (block : PrintsBlock .block d' [positive] w')
      (other : PrintsBlock .block d'' [negative] w'') :
    PrintsBlock .line (max d (max d' d'')) [.branch o e positive (some negative)]
      ([.keyword .branch] ++ w ++ w' ++ [.keyword .otherwise] ++ w'' ++ [.newline])
  | blank (o : Origin) : PrintsBlock .line 0 [.blank o] [.newline]
  | form {d : Nat} {body : List Node} {w : List Token} (o : Origin) (name : String)
      (children : PrintsBlock .children d body w) :
    PrintsBlock .line d [.form o name body]
      ([.keyword .form, .identifier name, .mark .openBrace] ++ w ++ [.mark .closeBrace, .newline])
  | noChild : PrintsBlock .children 0 [] []
  | childField {d : Nat} {n : Node} {ns : List Node} {w w' : List Token} (field : PrintsField n w)
      (rest : PrintsBlock .children d ns w') :
    PrintsBlock .children d (n :: ns) (w ++ w')
  | childBlock {d d' d'' : Nat} {e : Node} {body ns : List Node} {w w' w'' : List Token}
      (o o' : Origin)
      (container : FormContainer) (condition : PrintsExpression (.tiers Tier.all) d e w)
      (block : PrintsBlock .block d' [.block o' body] w')
      (admitted : ∀ n ∈ body, container.admits n = true)
      (rest : PrintsBlock .children d'' ns w'') :
    PrintsBlock .children (max (max d d') d'') (container.toNode o e (.block o' body) :: ns)
      ([.keyword container.keyword] ++ w ++ w' ++ w'')

/-! ## Well-formed trees -/

end Grammar

namespace Node

open Grammar (propertyKey?)

/-- A name that is no reserved word. -/
abbrev IsFreeName (name : String) : Prop :=
  (Token.identifier name).Spellable

/-- What a node itself holds can be written: integers are not negative, texts hold neither a quote
nor `//`, names and keys are free, and no key of a field comes twice. -/
def Spellable : Node → Prop
  | int _ k => 0 ≤ k.toInt
  | str _ content => '"' ∉ content.toList ∧ ¬ ['/', '/'] <:+: content.toList
  | ident _ name | declare _ name _ _ | form _ name _ | scalar _ name _ | array _ name _ =>
    IsFreeName name
  | field _ _ name properties => IsFreeName name ∧ (properties.filterMap propertyKey?).Nodup
  | _ => True

/-- The tree of a program, in which every node can be written. -/
structure WellFormed (root : Node) : Prop where
  shape : HasRole .block root
  spellable : ∀ n ∈ root.walk, n.Spellable

end Node

namespace Grammar

/-- A token that can be written without starting a comment. -/
def Writable (token : Token) : Prop :=
  token.Spellable ∧ ∀ content, token = .text content → Text.Plain content.toList

@[simp] theorem writable_mark (m : Mark) : Writable (.mark m) := ⟨trivial, nofun⟩
@[simp] theorem writable_keyword (k : Keyword) : Writable (.keyword k) := ⟨trivial, nofun⟩
@[simp] theorem writable_typeName (type : Ty) : Writable (.typeName type) := ⟨trivial, nofun⟩
@[simp] theorem writable_fieldKind (kind : FieldKind) : Writable (.fieldKind kind) :=
  ⟨trivial, nofun⟩
@[simp] theorem writable_newline : Writable .newline := ⟨trivial, nofun⟩

@[simp] theorem writable_identifier {name : String} :
    Writable (.identifier name) ↔ Node.IsFreeName name :=
  ⟨fun h => h.1, fun h => ⟨h, nofun⟩⟩

/-- A text without quotes and slashes side by side can be written. -/
theorem writable_text {o : Origin} {content : String} (h : (Node.str o content).Spellable) :
    Writable (.text content) := by
  refine ⟨h.1, ?_⟩
  rintro _ ⟨⟩
  exact Text.plain_iff_no_slashes.2 h.2

/-- The token of a literal can be written if the literal can. -/
theorem PrintsLiteral.writable {n : Node} {token : Token} (h : PrintsLiteral n token)
    (hn : ∀ m ∈ n.walk, m.Spellable) : Writable token := by
  obtain ⟨hself, -⟩ := Node.forall_walk.1 hn
  cases h with
  | int o k => exact ⟨hself, nofun⟩
  | str o content => exact writable_text hself
  | bool o b => exact ⟨trivial, nofun⟩

/-- The tokens of an expression can be written if its nodes can. -/
theorem PrintsExpression.writable {layout : Layout} {d : Nat} {n : Node} {w : List Token}
    (h : PrintsExpression layout d n w) (hn : ∀ m ∈ n.walk, m.Spellable) :
    ∀ token ∈ w, Writable token := by
  induction h with
  | literal literal => simpa using literal.writable hn
  | ident o name =>
    have hname : Node.IsFreeName name := (Node.forall_walk.1 hn).1
    simpa using hname
  | scan o => simp
  | parens _ ih => simpa [or_imp, forall_and] using ih hn
  | unary o op _ ih =>
    obtain ⟨-, hparts⟩ := Node.forall_walk.1 hn
    simpa using ih (hparts _ (.head _))
  | atom _ ih | tier _ ih | first _ ih => exact ih hn
  | more o op _ _ ih ih' =>
    obtain ⟨-, hparts⟩ := Node.forall_walk.1 hn
    simpa [or_imp, forall_and] using ⟨ih (hparts _ (.head _)), ih' (hparts _ (.tail _ (.head _)))⟩

/-- The tokens of items can be written if these can. -/
theorem PrintsItems.writable {ns : List Node} {w : List Token} (h : PrintsItems ns w)
    (hns : ∀ n ∈ ns, ∀ m ∈ n.walk, m.Spellable) : ∀ token ∈ w, Writable token := by
  have hitem : ∀ {n token}, PrintsItem n token → (∀ m ∈ n.walk, m.Spellable) → Writable token := by
    intro n token h hn
    obtain ⟨hself, -⟩ := Node.forall_walk.1 hn
    cases h with
    | str o content => exact writable_text hself
    | ident o name => exact writable_identifier.2 hself
  induction h with
  | none => simp
  | one item => simpa using hitem item (hns _ (.head _))
  | more item _ ih =>
    rw [List.forall_mem_cons] at hns
    simpa using ⟨hitem item hns.1, ih hns.2⟩

/-- The tokens of a property can be written if its nodes can. -/
theorem PrintsProperty.writable {n : Node} {w : List Token} (h : PrintsProperty n w)
    (hn : ∀ m ∈ n.walk, m.Spellable) : ∀ token ∈ w, Writable token := by
  obtain ⟨hself, hparts⟩ := Node.forall_walk.1 hn
  cases h with
  | scalar o key literal =>
    have hkey : Node.IsFreeName key := hself
    simpa using ⟨hkey, literal.writable (hparts _ (.head _))⟩
  | array o key items =>
    have hkey : Node.IsFreeName key := hself
    simpa [or_imp, forall_and] using ⟨hkey, items.writable hparts⟩

/-- The tokens of properties can be written if the nodes of these can. -/
theorem PrintsProperties.writable {ns : List Node} {w : List Token} (h : PrintsProperties ns w)
    (hns : ∀ n ∈ ns, ∀ m ∈ n.walk, m.Spellable) : ∀ token ∈ w, Writable token := by
  induction h with
  | none => simp
  | one property => exact property.writable (hns _ (.head _))
  | more property _ ih =>
    rw [List.forall_mem_cons] at hns
    simpa [or_imp, forall_and] using ⟨property.writable hns.1, ih hns.2⟩

/-- The tokens of a field can be written if its nodes can. -/
theorem PrintsField.writable {n : Node} {w : List Token} (h : PrintsField n w)
    (hn : ∀ m ∈ n.walk, m.Spellable) : ∀ token ∈ w, Writable token := by
  obtain ⟨o, kind, name, properties⟩ := h
  obtain ⟨hself, hparts⟩ := Node.forall_walk.1 hn
  simpa [or_imp, forall_and] using ⟨hself.1, properties.writable hparts⟩

/-- All tokens that write well-formed nodes can be written. -/
theorem PrintsBlock.writable {part : BlockPart} {d : Nat} {ns : List Node} {w : List Token}
    (h : PrintsBlock part d ns w) (hns : ∀ n ∈ ns, ∀ m ∈ n.walk, m.Spellable) :
    ∀ token ∈ w, Writable token := by
  induction h with
  | block o _ ih =>
    obtain ⟨-, hparts⟩ := Node.forall_walk.1 (hns _ (.head _))
    simpa [or_imp, forall_and] using ih hparts
  | noLine | noChild => simp
  | line _ _ ih ih' =>
    rw [List.forall_mem_cons] at hns
    simpa [or_imp, forall_and] using ⟨ih (by simpa using hns.1), ih' hns.2⟩
  | field field => exact field.writable (hns _ (.head _))
  | print o expr =>
    obtain ⟨-, hparts⟩ := Node.forall_walk.1 (hns _ (.head _))
    simpa [or_imp, forall_and] using expr.writable (hparts _ (.head _))
  | declare o name type =>
    have hname : Node.IsFreeName name := (Node.forall_walk.1 (hns _ (.head _))).1
    simpa using hname
  | declareInit o name type init =>
    obtain ⟨hself, hparts⟩ := Node.forall_walk.1 (hns _ (.head _))
    have hname : Node.IsFreeName name := hself
    simpa [or_imp, forall_and] using ⟨hname, init.writable (hparts _ (.head _))⟩
  | assign o o' name value =>
    obtain ⟨-, hparts⟩ := Node.forall_walk.1 (hns _ (.head _))
    have hname : Node.IsFreeName name := (Node.forall_walk.1 (hparts _ (.head _))).1
    simpa [or_imp, forall_and] using ⟨hname, value.writable (hparts _ (.tail _ (.head _)))⟩
  | loop o condition _ ih | branch o condition _ ih =>
    obtain ⟨-, hparts⟩ := Node.forall_walk.1 (hns _ (.head _))
    have hcondition := condition.writable (hparts _ (.head _))
    have hblock := ih (by simpa using hparts _ (.tail _ (.head _)))
    simpa [or_imp, forall_and] using ⟨hcondition, hblock⟩
  | branchElse o condition _ _ ih ih' =>
    obtain ⟨-, hparts⟩ := Node.forall_walk.1 (hns _ (.head _))
    have hcondition := condition.writable (hparts _ (.head _))
    have hblock := ih (by simpa using hparts _ (.tail _ (.head _)))
    have hother := ih' (by simpa using hparts _ (.tail _ (.tail _ (.head _))))
    simpa [or_imp, forall_and] using ⟨hcondition, hblock, hother⟩
  | blank o => simp
  | form o name _ ih =>
    obtain ⟨hself, hparts⟩ := Node.forall_walk.1 (hns _ (.head _))
    have hname : Node.IsFreeName name := hself
    simpa [or_imp, forall_and] using ⟨hname, ih hparts⟩
  | childField field _ ih =>
    rw [List.forall_mem_cons] at hns
    simpa [or_imp, forall_and] using ⟨field.writable hns.1, ih hns.2⟩
  | childBlock o o' container condition _ _ _ ih ih' =>
    rw [List.forall_mem_cons] at hns
    obtain ⟨hnode, hrest⟩ := hns
    obtain ⟨-, hparts⟩ := Node.forall_walk.1 hnode
    have hchildren := FormContainer.children_toNode container o
    have hcondition := condition.writable (hparts _ (by simp [hchildren]))
    have hblock := ih (by simpa using hparts _ (by simp [hchildren]))
    simpa [or_imp, forall_and] using ⟨hcondition, hblock, ih' hrest⟩

/-! ## Every tree of the right shape has a printing -/

/-- A factor can stand where any operators could. -/
theorem PrintsExpression.tiers_of_factor {d : Nat} {n : Node} {w : List Token}
    (h : PrintsExpression .factor d n w) {ts : List Tier} (hts : Tier.Layered ts) :
    PrintsExpression (.tiers ts) d n w := by
  induction ts with
  | nil => exact .atom h
  | cons t ts ih =>
    obtain rfl : ts = t.tighter := by simpa [Tier.Layered] using hts
    exact .tier (.first (ih t.layered_tighter))

/-- Operators of one tier can stand where all could. -/
theorem PrintsExpression.all_of_chain {d k : Nat} {t : Tier} {n : Node} {w : List Token}
    (h : PrintsExpression (.chain t k) d n w) : PrintsExpression (.tiers Tier.all) d n w := by
  cases t with
  | or => exact .tier h
  | and => exact .tier (.first (.tier h))
  | relation => exact .tier (.first (.tier (t := .and) (.first (.tier h))))
  | sum =>
    exact .tier (.first (.tier (t := .and) (.first (.tier (t := .relation) (.first (.tier h))))))
  | product =>
    exact .tier (.first (.tier (t := .and) (.first (.tier (t := .relation) (.first
      (.tier (t := .sum) (.first (.tier h))))))))

/-- Every literal has a token. -/
theorem exists_printsLiteral {n : Node} (h : n.IsLiteral) : ∃ token, PrintsLiteral n token := by
  cases h with
  | int o k => exact ⟨_, .int o k⟩
  | str o content => exact ⟨_, .str o content⟩
  | bool o b => exact ⟨_, .bool o b⟩

/-- An expression can be written as a factor, with parentheses around every infix operator. -/
theorem exists_printsFactor {n : Node} (h : n.IsExpression) :
    ∃ d w, PrintsExpression .factor d n w := by
  induction h with
  | literal literal =>
    obtain ⟨token, literal⟩ := exists_printsLiteral literal
    exact ⟨0, _, .literal literal⟩
  | ident o name => exact ⟨0, _, .ident o name⟩
  | scan o => exact ⟨0, _, .scan o⟩
  | unary o op _ ih =>
    obtain ⟨d, w, operand⟩ := ih
    exact ⟨d + 1, _, .unary o op operand⟩
  | binary o op _ _ ih ih' =>
    obtain ⟨d, w, left⟩ := ih
    obtain ⟨d', w', right⟩ := ih'
    have hleft := left.tiers_of_factor (tierOf op).layered_tighter
    have hright := right.tiers_of_factor (tierOf op).layered_tighter
    exact ⟨_, _, .parens (PrintsExpression.more o op (.first hleft) hright).all_of_chain⟩

/-- Every expression is written by some tokens. -/
theorem exists_printsExpression {n : Node} (h : n.IsExpression) :
    ∃ d w, PrintsExpression (.tiers Tier.all) d n w := by
  obtain ⟨d, w, factor⟩ := exists_printsFactor h
  exact ⟨d, w, factor.tiers_of_factor (.inr ⟨.or, rfl⟩)⟩

/-- Items are written by some tokens. -/
theorem exists_printsItems {ns : List Node} (h : ∀ n ∈ ns, n.IsItem) : ∃ w, PrintsItems ns w := by
  have hitem : ∀ {n : Node}, n.IsItem → ∃ token, PrintsItem n token := by
    intro n h
    cases h with
    | str o content => exact ⟨_, .str o content⟩
    | ident o name => exact ⟨_, .ident o name⟩
  induction ns with
  | nil => exact ⟨[], .none⟩
  | cons n ns ih =>
    rw [List.forall_mem_cons] at h
    obtain ⟨token, item⟩ := hitem h.1
    obtain ⟨w, rest⟩ := ih h.2
    cases ns with
    | nil => exact ⟨_, .one item⟩
    | cons m ns => exact ⟨_, .more item rest⟩

/-- Properties are written by some tokens. -/
theorem exists_printsProperties {ns : List Node} (h : ∀ n ∈ ns, n.IsProperty) :
    ∃ w, PrintsProperties ns w := by
  have hproperty : ∀ {n : Node}, n.IsProperty → ∃ w, PrintsProperty n w := by
    intro n h
    cases h with
    | scalar o key literal =>
      obtain ⟨token, literal⟩ := exists_printsLiteral literal
      exact ⟨_, .scalar o key literal⟩
    | array o key items =>
      obtain ⟨w, items⟩ := exists_printsItems items
      exact ⟨_, .array o key items⟩
  induction ns with
  | nil => exact ⟨[], .none⟩
  | cons n ns ih =>
    rw [List.forall_mem_cons] at h
    obtain ⟨w, property⟩ := hproperty h.1
    obtain ⟨w', rest⟩ := ih h.2
    cases ns with
    | nil => exact ⟨_, .one property⟩
    | cons m ns => exact ⟨_, .more property rest⟩

/-- Every field is written by some tokens. -/
theorem exists_printsField {n : Node} (h : n.IsField) : ∃ w, PrintsField n w := by
  obtain ⟨o, kind, name, properties⟩ := h
  obtain ⟨w, properties⟩ := exists_printsProperties properties
  exact ⟨_, .intro o kind name properties⟩

/-- The lines of a block are written by some tokens if each of them is. -/
theorem exists_printsLines {ns : List Node} (h : ∀ n ∈ ns, ∃ d w, PrintsBlock .line d [n] w) :
    ∃ d w, PrintsBlock .lines d ns w := by
  induction ns with
  | nil => exact ⟨0, [], .noLine⟩
  | cons n ns ih =>
    rw [List.forall_mem_cons] at h
    obtain ⟨d, w, first⟩ := h.1
    obtain ⟨d', w', rest⟩ := ih h.2
    exact ⟨_, _, .line first rest⟩

/-- The children of a form are written by some tokens if each is in front of those behind it. -/
theorem exists_printsChildren {ns : List Node} (h : ∀ n ∈ ns, ∀ d ms w,
      PrintsBlock .children d ms w → ∃ d' w', PrintsBlock .children d' (n :: ms) w') :
    ∃ d w, PrintsBlock .children d ns w := by
  induction ns with
  | nil => exact ⟨0, [], .noChild⟩
  | cons n ns ih =>
    rw [List.forall_mem_cons] at h
    obtain ⟨d, w, rest⟩ := ih h.2
    exact h.1 d ns w rest

/-- What stands in a place can be written there. A child of a form is written in front of its other
children. -/
theorem exists_prints {role : Node.Role} {n : Node} (h : n.HasRole role) :
    match role with
    | .block => ∃ d w, PrintsBlock .block d [n] w
    | .line => ∃ d w, PrintsBlock .line d [n] w
    | .child =>
      ∀ d ns w, PrintsBlock .children d ns w → ∃ d' w', PrintsBlock .children d' (n :: ns) w' := by
  induction h with
  | block o _ ih =>
    obtain ⟨d, w, lines⟩ := exists_printsLines ih
    exact ⟨_, _, .block o lines⟩
  | field field =>
    obtain ⟨w, field⟩ := exists_printsField field
    exact ⟨_, _, .field field⟩
  | print o expr =>
    obtain ⟨d, w, expr⟩ := exists_printsExpression expr
    exact ⟨_, _, .print o expr⟩
  | declare o name type => exact ⟨_, _, .declare o name type⟩
  | declareInit o name type init =>
    obtain ⟨d, w, init⟩ := exists_printsExpression init
    exact ⟨_, _, .declareInit o name type init⟩
  | assign o o' name value =>
    obtain ⟨d, w, value⟩ := exists_printsExpression value
    exact ⟨_, _, .assign o o' name value⟩
  | loop o condition _ ih =>
    obtain ⟨d, w, condition⟩ := exists_printsExpression condition
    obtain ⟨d', w', block⟩ := ih
    exact ⟨_, _, .loop o condition block⟩
  | branch o condition _ ih =>
    obtain ⟨d, w, condition⟩ := exists_printsExpression condition
    obtain ⟨d', w', block⟩ := ih
    exact ⟨_, _, .branch o condition block⟩
  | branchElse o condition _ _ ih ih' =>
    obtain ⟨d, w, condition⟩ := exists_printsExpression condition
    obtain ⟨d', w', block⟩ := ih
    obtain ⟨d'', w'', other⟩ := ih'
    exact ⟨_, _, .branchElse o condition block other⟩
  | blank o => exact ⟨_, _, .blank o⟩
  | form o name _ ih =>
    obtain ⟨d, w, children⟩ := exists_printsChildren ih
    exact ⟨_, _, .form o name children⟩
  | childField field =>
    intro d ns w rest
    obtain ⟨w', field⟩ := exists_printsField field
    exact ⟨_, _, .childField field rest⟩
  | childBlock o o' container condition _ admitted ih =>
    intro d ns w rest
    obtain ⟨d', w', condition⟩ := exists_printsExpression condition
    obtain ⟨d'', w'', block⟩ := ih
    exact ⟨_, _, .childBlock o o' container condition block admitted rest⟩

/-- Every block is written by some tokens. -/
theorem exists_printsBlock {n : Node} (h : n.HasRole .block) : ∃ d w, PrintsBlock .block d [n] w :=
  exists_prints h

end Grammar

end FormScript
