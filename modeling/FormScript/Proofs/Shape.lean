import FormScript.Proofs.Reading.Program

/-!
# The shape of program trees

`Node` holds trees that no program has, such as a block as an operand. The predicates here say which
nodes stand where in the tree of a program: `Node.IsExpression` and `Node.IsField` for expressions
and field declarations, `Node.HasRole` for blocks, the lines of blocks and the children of forms.
Every tree that `parse` gives has the shape of a block (`hasRole_of_parse`).
-/

namespace FormScript

namespace Node

/-- What holds of all nodes of neighbours holds of all nodes of each. -/
theorem forall_walkAll {P : Node → Prop} {ns : List Node} :
    (∀ n ∈ walkAll ns, P n) ↔ ∀ n ∈ ns, ∀ m ∈ n.walk, P m := by
  induction ns with
  | nil => simp [walkAll]
  | cons n ns ih => simp [walkAll, or_imp, forall_and, ih]

/-- What holds of all nodes of a tree holds of its root and of all nodes of its parts. -/
theorem forall_walk {P : Node → Prop} {n : Node} :
    (∀ m ∈ n.walk, P m) ↔ P n ∧ ∀ part ∈ n.children, ∀ m ∈ part.walk, P m := by
  cases n with
  | declare _ _ _ init => cases init <;> simp [walk, children]
  | branch _ _ _ negative => cases negative <;> simp [walk, children, or_imp, forall_and]
  | _ => simp [walk, children, or_imp, forall_and, forall_walkAll]

/-- A literal. -/
inductive IsLiteral : Node → Prop where
  | int (o : Origin) (k : Int64) : IsLiteral (.int o k)
  | str (o : Origin) (content : String) : IsLiteral (.str o content)
  | bool (o : Origin) (b : Bool) : IsLiteral (.bool o b)

/-- An expression. -/
inductive IsExpression : Node → Prop where
  | literal {n : Node} (literal : IsLiteral n) : IsExpression n
  | ident (o : Origin) (name : String) : IsExpression (.ident o name)
  | scan (o : Origin) : IsExpression (.scan o)
  | unary {n : Node} (o : Origin) (op : UnaryOp) (operand : IsExpression n) :
    IsExpression (.unary o op n)
  | binary {left right : Node} (o : Origin) (op : BinaryOp) (hleft : IsExpression left)
      (hright : IsExpression right) :
    IsExpression (.binary o op left right)

/-- An item of an array. -/
inductive IsItem : Node → Prop where
  | str (o : Origin) (content : String) : IsItem (.str o content)
  | ident (o : Origin) (name : String) : IsItem (.ident o name)

/-- A property of a field. -/
inductive IsProperty : Node → Prop where
  | scalar {value : Node} (o : Origin) (key : String) (literal : IsLiteral value) :
    IsProperty (.scalar o key value)
  | array {ns : List Node} (o : Origin) (key : String) (items : ∀ n ∈ ns, IsItem n) :
    IsProperty (.array o key ns)

/-- A field declaration. -/
inductive IsField : Node → Prop where
  | intro {ns : List Node} (o : Origin) (kind : FieldKind) (name : String)
      (properties : ∀ n ∈ ns, IsProperty n) :
    IsField (.field o kind name ns)

/-- A place for a node that is neither an expression nor a part of a field. -/
inductive Role where
  | block
  | line
  | child

open Grammar (FormContainer)

/-- A node that can stand in a place: a block, a line of a block or a child of a form. -/
inductive HasRole : Role → Node → Prop where
  | block {body : List Node} (o : Origin) (lines : ∀ n ∈ body, HasRole .line n) :
    HasRole .block (.block o body)
  | field {n : Node} (field : IsField n) : HasRole .line n
  | print {e : Node} (o : Origin) (expr : IsExpression e) : HasRole .line (.print o e)
  | declare (o : Origin) (name : String) (type : Ty) : HasRole .line (.declare o name type none)
  | declareInit {e : Node} (o : Origin) (name : String) (type : Ty) (init : IsExpression e) :
    HasRole .line (.declare o name type (some e))
  | assign {e : Node} (o o' : Origin) (name : String) (value : IsExpression e) :
    HasRole .line (.assign o (.ident o' name) e)
  | loop {e body : Node} (o : Origin) (condition : IsExpression e) (block : HasRole .block body) :
    HasRole .line (.loop o e body)
  | branch {e positive : Node} (o : Origin) (condition : IsExpression e)
      (block : HasRole .block positive) :
    HasRole .line (.branch o e positive none)
  | branchElse {e positive negative : Node} (o : Origin) (condition : IsExpression e)
      (block : HasRole .block positive) (other : HasRole .block negative) :
    HasRole .line (.branch o e positive (some negative))
  | blank (o : Origin) : HasRole .line (.blank o)
  | form {body : List Node} (o : Origin) (name : String) (children : ∀ n ∈ body, HasRole .child n) :
    HasRole .line (.form o name body)
  | childField {n : Node} (field : IsField n) : HasRole .child n
  | childBlock {e : Node} {body : List Node} (o o' : Origin) (container : FormContainer)
      (condition : IsExpression e) (block : HasRole .block (.block o' body))
      (admitted : ∀ n ∈ body, container.admits n = true) :
    HasRole .child (container.toNode o e (.block o' body))

/-- If a node is a form, its parts are children of a form. -/
def FormShaped : Node → Prop
  | form _ _ body => ∀ n ∈ body, HasRole .child n
  | _ => True

/-- There is no form in a literal. -/
theorem IsLiteral.formShaped {n : Node} (h : IsLiteral n) : ∀ m ∈ n.walk, m.FormShaped := by
  cases h <;> simp [walk, FormShaped]

/-- There is no form in an expression. -/
theorem IsExpression.formShaped {n : Node} (h : IsExpression n) : ∀ m ∈ n.walk, m.FormShaped := by
  induction h with
  | literal literal => exact literal.formShaped
  | ident | scan => simp [walk, FormShaped]
  | unary _ _ _ ih => exact forall_walk.2 ⟨trivial, by simpa [children] using ih⟩
  | binary _ _ _ _ ih ih' => exact forall_walk.2 ⟨trivial, by simpa [children] using ⟨ih, ih'⟩⟩

/-- There is no form in a property. -/
theorem IsProperty.formShaped {n : Node} (h : IsProperty n) : ∀ m ∈ n.walk, m.FormShaped := by
  cases h with
  | scalar _ _ literal =>
    refine forall_walk.2 ⟨trivial, ?_⟩
    simpa [children] using literal.formShaped
  | array _ _ items =>
    refine forall_walk.2 ⟨trivial, fun item hitem => ?_⟩
    cases items item hitem <;> simp [walk, FormShaped]

/-- There is no form in a field. -/
theorem IsField.formShaped {n : Node} (h : IsField n) : ∀ m ∈ n.walk, m.FormShaped := by
  obtain ⟨o, kind, name, properties⟩ := h
  exact forall_walk.2 ⟨trivial, fun property hproperty =>
    (properties property hproperty).formShaped⟩

/-- All forms of a program have children of forms as their parts. -/
theorem HasRole.formShaped {role : Role} {n : Node} (h : HasRole role n) :
    ∀ m ∈ n.walk, m.FormShaped := by
  induction h with
  | block _ _ ih => exact forall_walk.2 ⟨trivial, ih⟩
  | field field | childField field => exact field.formShaped
  | print _ expr => exact forall_walk.2 ⟨trivial, by simpa [children] using expr.formShaped⟩
  | declare | blank => simp [walk, FormShaped]
  | declareInit _ _ _ init =>
    exact forall_walk.2 ⟨trivial, by simpa [children] using init.formShaped⟩
  | assign _ o' name value =>
    refine forall_walk.2 ⟨trivial, ?_⟩
    simpa [children] using ⟨(IsExpression.ident o' name).formShaped, value.formShaped⟩
  | loop _ condition _ ih | branch _ condition _ ih =>
    exact forall_walk.2 ⟨trivial, by simpa [children] using ⟨condition.formShaped, ih⟩⟩
  | branchElse _ condition _ _ ih ih' =>
    exact forall_walk.2 ⟨trivial, by simpa [children] using ⟨condition.formShaped, ih, ih'⟩⟩
  | form _ _ hchildren ih => exact forall_walk.2 ⟨hchildren, ih⟩
  | childBlock _ _ container condition _ _ ih =>
    refine forall_walk.2 ⟨by cases container <;> trivial, ?_⟩
    cases container <;> simpa [Grammar.FormContainer.toNode, children] using
      ⟨condition.formShaped, ih⟩

end Node

namespace Grammar

open Node (IsLiteral IsExpression IsItem IsProperty IsField HasRole)

/-- The parts of a block of a form are its condition and its block. -/
theorem FormContainer.children_toNode (container : FormContainer) (o : Origin) (e body : Node) :
    (container.toNode o e body).children = [e, body] := by
  cases container <;> rfl

/-- What holds of two things holds of all in their list. -/
theorem forall_mem_pair {α : Type} {p : α → Prop} {a b : α} (ha : p a) (hb : p b) :
    ∀ x ∈ [a, b], p x :=
  List.forall_mem_cons.2 ⟨ha, List.forall_mem_singleton.2 hb⟩

section
variable {s s' : TokenStream}

/-- What a rule for expressions reads is an expression, if it starts from one. -/
theorem ReadsExpression.isExpression {r : ExpressionRule} {d : Nat} {n : Node}
    (h : ReadsExpression r d s n s') (hr : ∀ t left, r = .chain t left → IsExpression left) :
    IsExpression n := by
  induction h with
  | int => exact .literal (.int _ _)
  | str => exact .literal (.str _ _)
  | bool => exact .literal (.bool _ _)
  | ident => exact .ident _ _
  | scan => exact .scan _
  | parens _ _ _ ih => exact ih nofun
  | prefixed _ _ _ ih => exact .unary _ _ (ih nofun)
  | atom _ ih => exact ih nofun
  | tier _ _ ih ih' =>
    refine ih' ?_
    rintro t left ⟨⟩
    exact ih nofun
  | stop => exact hr _ _ rfl
  | more _ _ _ _ ih ih' =>
    refine ih' ?_
    rintro t left ⟨⟩
    exact .binary _ _ (hr _ _ rfl) (ih nofun)

/-- What is read as items are items. -/
theorem ReadsItems.isItem {ns : List Node} (h : ReadsItems s ns s') : ∀ n ∈ ns, IsItem n := by
  have hitem : ∀ {s n s'}, ReadsItem s n s' → IsItem n := by
    intro s n s' h
    cases h with
    | text => exact .str _ _
    | name => exact .ident _ _
  induction h with
  | close => simp
  | last _ item => simpa using hitem item
  | comma _ item _ _ _ ih => exact List.forall_mem_cons.2 ⟨hitem item, ih⟩

/-- A value that was read makes a property. -/
theorem ReadsValue.isProperty {value : PropertyValue} (h : ReadsValue s value s') (o : Origin)
    (key : String) : IsProperty (value.toNode o key) := by
  cases h with
  | text => exact .scalar _ _ (.str _ _)
  | boolean => exact .scalar _ _ (.bool _ _)
  | integer => exact .scalar _ _ (.int _ _)
  | array _ read => exact .array _ _ read.isItem

/-- What holds of the properties before and of every node with the new value holds of the properties
after. -/
theorem forall_of_putProperty {P : Node → Prop} {before after : List Node} {line : Nat}
    {key : String} {value : PropertyValue} (h : putProperty before line key value s = .ok after s')
    (hbefore : ∀ n ∈ before, P n) (hvalue : ∀ o, P (value.toNode o key)) : ∀ n ∈ after, P n := by
  unfold putProperty at h
  split at h
  · cases h
    intro n hn
    obtain ⟨m, hm, rfl⟩ := List.mem_map.1 hn
    split
    · exact hvalue _
    · exact hbefore m hm
  · cases h
    intro n hn
    rcases List.mem_append.1 hn with hn | hn
    · exact hbefore n hn
    · rw [List.mem_singleton.1 hn]
      exact hvalue _

/-- What is read as properties are properties. -/
theorem ReadsProperties.isProperty {before after : List Node}
    (h : ReadsProperties before s after s') (hbefore : ∀ n ∈ before, IsProperty n) :
    ∀ n ∈ after, IsProperty n := by
  induction h with
  | close => exact hbefore
  | comma _ property _ _ ih | line _ property _ _ ih =>
    obtain ⟨-, -, read, put⟩ := property
    exact ih (forall_of_putProperty put hbefore fun o => read.isProperty o _)

/-- What is read as a field is a field. -/
theorem ReadsField.isField {n : Node} (h : ReadsField s n s') : IsField n := by
  obtain ⟨-, -, -, read⟩ := h
  exact .intro _ _ _ (read.isProperty (by simp))

/-- The place of the nodes that a rule reads. -/
def BlockRule.role : BlockRule → Node.Role
  | block => .block
  | items | statement | form => .line
  | children => .child

/-- What a rule for blocks reads can stand in its place. -/
theorem ReadsBlock.hasRole {r : BlockRule} {d : Nat} {ns : List Node} (h : ReadsBlock r d s ns s') :
    ∀ n ∈ ns, HasRole r.role n := by
  have hexpr : ∀ {d s n s'}, ReadsExpression (.tiers Tier.all) d s n s' → IsExpression n :=
    fun h => h.isExpression nofun
  induction h with
  | block _ _ _ ih => simpa using .block _ ih
  | close | formClose => simp
  | field first _ ih => exact List.forall_mem_cons.2 ⟨.field first.isField, ih⟩
  | statement _ _ ih ih' => exact List.forall_mem_cons.2 ⟨ih _ (.head _), ih'⟩
  | print _ _ expr => simpa using .print _ (hexpr expr)
  | declare => simpa using .declare _ _ _
  | declareInit _ _ _ _ init => simpa using .declareInit _ _ _ (hexpr init)
  | assign _ _ value => simpa using .assign _ _ _ (hexpr value)
  | loop _ condition _ _ ih => simpa using .loop _ (hexpr condition) (ih _ (.head _))
  | branch _ condition _ _ ih => simpa using .branch _ (hexpr condition) (ih _ (.head _))
  | branchElse _ condition _ _ _ _ ih ih' =>
    simpa using .branchElse _ (hexpr condition) (ih _ (.head _)) (ih' _ (.head _))
  | blank => simpa using .blank _
  | formLine _ _ ih => exact ih
  | formBare _ _ ih => exact ih
  | form _ _ _ _ ih => simpa using .form _ _ ih
  | formField _ first _ ih => exact List.forall_mem_cons.2 ⟨.childField first.isField, ih⟩
  | formBlock _ _ condition _ admitted _ ih ih' =>
    exact List.forall_mem_cons.2 ⟨.childBlock _ _ _ (hexpr condition) (ih _ (.head _)) admitted,
      ih'⟩

end

/-- A parsed tree is a block of lines. -/
theorem hasRole_of_parse {source : String} {root : Node} (h : parse source = .ok root) :
    HasRole .block root := by
  obtain ⟨s, s', d, -, -, read⟩ := parse_ok h
  obtain ⟨-, read, -, -⟩ := read
  exact read.hasRole root (.head _)

end Grammar

end FormScript
