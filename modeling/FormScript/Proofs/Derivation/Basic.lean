import FormScript.Proofs.Reading.Block

/-!
# The grammar over tokens

What token sequences are programs, said without a parser: one relation for each kind of rule, with
one constructor for each alternative of it. The words of a rule are written as they stand in the
text, so that a constructor reads as a production. A starred part of a production is a relation of
its own, empty or one part in front of more.

`DerivesExpression`, `DerivesBlock` and `DerivesProgram` also carry a number of levels. Parentheses,
operators and blocks leave one level fewer for what stands inside them, and behind an operator for
the rest of its chain; every other production passes the levels on. With the levels left out these
are the productions of the plain grammar.
-/

namespace FormScript.Grammar

open TokenStream (lineEnds)

/-! ## Fields -/

/-- An item of an array: a text or a name. -/
inductive DerivesItem : List Token → Prop where
  | text (content : String) : DerivesItem [.text content]
  | name (name : String) : DerivesItem [.identifier name]

/-- More items of an array, each behind a comma. -/
inductive DerivesItems : List Token → Prop where
  | none : DerivesItems []
  | comma {w w' : List Token} (j k : Nat) (item : DerivesItem w) (more : DerivesItems w') :
    DerivesItems ([.mark .comma] ++ lineEnds j ++ w ++ lineEnds k ++ w')

/-- What stands between the brackets of an array behind the line ends that come first. -/
inductive DerivesArrayBody : List Token → Prop where
  | empty : DerivesArrayBody []
  | full {w w' : List Token} (k : Nat) (item : DerivesItem w) (more : DerivesItems w') :
    DerivesArrayBody (w ++ lineEnds k ++ w')
  | trailing {w w' : List Token} (k l : Nat) (item : DerivesItem w) (more : DerivesItems w') :
    DerivesArrayBody (w ++ lineEnds k ++ w' ++ [.mark .comma] ++ lineEnds l)

/-- Items in brackets. -/
inductive DerivesArray : List Token → Prop where
  | intro {w : List Token} (k : Nat) (body : DerivesArrayBody w) :
    DerivesArray ([.mark .openBracket] ++ lineEnds k ++ w ++ [.mark .closeBracket])

/-- The value of a property. -/
inductive DerivesValue : List Token → Prop where
  | text (content : String) : DerivesValue [.text content]
  | boolean (b : Bool) : DerivesValue [.boolean b]
  | integer (n : Int64) : DerivesValue [.integer n]
  | array {w : List Token} (array : DerivesArray w) : DerivesValue w

/-- A property: a key and its value. -/
inductive DerivesProperty : List Token → Prop where
  | intro {w : List Token} (key : String) (value : DerivesValue w) :
    DerivesProperty ([.identifier key, .mark .colon] ++ w)

/-- More properties, each behind a comma or a line end. -/
inductive DerivesProperties : List Token → Prop where
  | none : DerivesProperties []
  | comma {w w' : List Token} (k : Nat) (property : DerivesProperty w)
      (more : DerivesProperties w') :
    DerivesProperties ([.mark .comma] ++ lineEnds k ++ w ++ w')
  | line {w w' : List Token} (k : Nat) (property : DerivesProperty w)
      (more : DerivesProperties w') :
    DerivesProperties ([.newline] ++ lineEnds k ++ w ++ w')

/-- What stands between the braces of a field behind the line ends that come first. -/
inductive DerivesFieldBody : List Token → Prop where
  | empty : DerivesFieldBody []
  | full {w w' : List Token} (k : Nat) (property : DerivesProperty w)
      (more : DerivesProperties w') :
    DerivesFieldBody (w ++ w' ++ lineEnds k)
  | trailing {w w' : List Token} (k : Nat) (property : DerivesProperty w)
      (more : DerivesProperties w') :
    DerivesFieldBody (w ++ w' ++ [.mark .comma] ++ lineEnds k)

/-- A field declaration. -/
inductive DerivesField : List Token → Prop where
  | intro {w : List Token} (kind : FieldKind) (name : String) (k : Nat)
      (body : DerivesFieldBody w) :
    DerivesField ([.fieldKind kind, .identifier name, .mark .openBrace] ++ lineEnds k ++ w ++
      [.mark .closeBrace])

/-! ## Expressions -/

/-- The signs of the infix operators of a tier. -/
def Tier.signs : Tier → List Mark
  | or => [.orOr]
  | and => [.andAnd]
  | relation => [.equalEqual, .greater, .less]
  | sum => [.plus, .minus]
  | product => [.star, .slash]

/-- The signs of the prefix operators. -/
def prefixSigns : List Mark :=
  [.plus, .minus, .bang]

/-- A part of an expression: a factor, an expression of the given tiers, the loosest first, or the
operators of a tier behind their first operand. -/
inductive ExpressionSymbol where
  | factor
  | tiers (ts : List Tier)
  | chain (t : Tier)

/-- The tokens of a part of an expression, within a number of levels. -/
inductive DerivesExpression : Nat → ExpressionSymbol → List Token → Prop where
  | integer (levels : Nat) (n : Int64) : DerivesExpression levels .factor [.integer n]
  | text (levels : Nat) (content : String) : DerivesExpression levels .factor [.text content]
  | boolean (levels : Nat) (b : Bool) : DerivesExpression levels .factor [.boolean b]
  | name (levels : Nat) (name : String) : DerivesExpression levels .factor [.identifier name]
  | scan (levels : Nat) :
    DerivesExpression levels .factor [.keyword .scan, .mark .openParen, .mark .closeParen]
  | parens {levels : Nat} {w : List Token} (inner : DerivesExpression levels (.tiers Tier.all) w) :
    DerivesExpression (levels + 1) .factor ([.mark .openParen] ++ w ++ [.mark .closeParen])
  | signed {levels : Nat} {sign : Mark} {w : List Token} (hsign : sign ∈ prefixSigns)
      (operand : DerivesExpression levels .factor w) :
    DerivesExpression (levels + 1) .factor ([.mark sign] ++ w)
  | atom {levels : Nat} {w : List Token} (factor : DerivesExpression levels .factor w) :
    DerivesExpression levels (.tiers []) w
  | tier {levels : Nat} {t : Tier} {w w' : List Token}
      (operand : DerivesExpression levels (.tiers t.tighter) w)
      (operators : DerivesExpression levels (.chain t) w') :
    DerivesExpression levels (.tiers (t :: t.tighter)) (w ++ w')
  | stop (levels : Nat) (t : Tier) : DerivesExpression levels (.chain t) []
  | more {levels : Nat} {t : Tier} {sign : Mark} {w w' : List Token} (hsign : sign ∈ t.signs)
      (operand : DerivesExpression levels (.tiers t.tighter) w)
      (operators : DerivesExpression levels (.chain t) w') :
    DerivesExpression (levels + 1) (.chain t) ([.mark sign] ++ w ++ w')

/-! ## Blocks and programs -/

/-- A part of a program: a block, the lines of a block, a statement, an assignment, a form, the
children of a form, or the lines of a block of a form. -/
inductive BlockSymbol where
  | block
  | lines
  | statement
  | assignment
  | form
  | children
  | formLines (container : FormContainer)

/-- The tokens of a part of a program, within a number of levels. -/
inductive DerivesBlock : Nat → BlockSymbol → List Token → Prop where
  | block {levels : Nat} {w : List Token} (lines : DerivesBlock levels .lines w) :
    DerivesBlock (levels + 1) .block ([.mark .openBrace, .newline] ++ w ++ [.mark .closeBrace])
  | noLine (levels : Nat) : DerivesBlock levels .lines []
  | statement {levels : Nat} {w w' : List Token} (first : DerivesBlock levels .statement w)
      (rest : DerivesBlock levels .lines w') :
    DerivesBlock levels .lines (w ++ w')
  | field {levels : Nat} {w w' : List Token} (first : DerivesField w)
      (rest : DerivesBlock levels .lines w') :
    DerivesBlock levels .lines (w ++ w')
  | formBare {levels : Nat} {w : List Token} (form : DerivesBlock levels .form w) :
    DerivesBlock levels .statement w
  | formLine {levels : Nat} {w : List Token} (form : DerivesBlock levels .form w) :
    DerivesBlock levels .statement (w ++ [.newline])
  | print {levels : Nat} {w : List Token} (expr : DerivesExpression levels (.tiers Tier.all) w) :
    DerivesBlock levels .statement ([.keyword .print, .mark .openParen] ++ w ++
      [.mark .closeParen, .newline])
  | declare (levels : Nat) (name : String) (type : Ty) :
    DerivesBlock levels .statement [.keyword .declare, .identifier name, .typeName type, .newline]
  | declareInit {levels : Nat} {w : List Token} (name : String) (type : Ty)
      (init : DerivesExpression levels (.tiers Tier.all) w) :
    DerivesBlock levels .statement ([.keyword .declare, .identifier name, .typeName type,
      .mark .assign] ++ w ++ [.newline])
  | assign {levels : Nat} {w : List Token} (assignment : DerivesBlock levels .assignment w) :
    DerivesBlock levels .statement w
  | loop {levels : Nat} {w w' : List Token}
      (condition : DerivesExpression levels (.tiers Tier.all) w)
      (body : DerivesBlock levels .block w') :
    DerivesBlock levels .statement ([.keyword .loop] ++ w ++ w' ++ [.newline])
  | branch {levels : Nat} {w w' : List Token}
      (condition : DerivesExpression levels (.tiers Tier.all) w)
      (positive : DerivesBlock levels .block w') :
    DerivesBlock levels .statement ([.keyword .branch] ++ w ++ w' ++ [.newline])
  | branchElse {levels : Nat} {w w' w'' : List Token}
      (condition : DerivesExpression levels (.tiers Tier.all) w)
      (positive : DerivesBlock levels .block w') (negative : DerivesBlock levels .block w'') :
    DerivesBlock levels .statement ([.keyword .branch] ++ w ++ w' ++ [.keyword .otherwise] ++ w'' ++
      [.newline])
  | blank (levels : Nat) : DerivesBlock levels .statement [.newline]
  | assignment {levels : Nat} {w : List Token} (name : String)
      (value : DerivesExpression levels (.tiers Tier.all) w) :
    DerivesBlock levels .assignment ([.identifier name, .mark .assign] ++ w ++ [.newline])
  | form {levels : Nat} {w : List Token} (name : String)
      (children : DerivesBlock levels .children w) :
    DerivesBlock levels .form ([.keyword .form, .identifier name, .mark .openBrace] ++ w ++
      [.mark .closeBrace])
  | noChild (levels : Nat) : DerivesBlock levels .children []
  | childNewline {levels : Nat} {w : List Token} (rest : DerivesBlock levels .children w) :
    DerivesBlock levels .children ([.newline] ++ w)
  | childField {levels : Nat} {w w' : List Token} (first : DerivesField w)
      (rest : DerivesBlock levels .children w') :
    DerivesBlock levels .children (w ++ w')
  | childBlock {levels : Nat} {w w' w'' : List Token} (container : FormContainer)
      (condition : DerivesExpression (levels + 1) (.tiers Tier.all) w)
      (lines : DerivesBlock levels (.formLines container) w')
      (rest : DerivesBlock (levels + 1) .children w'') :
    DerivesBlock (levels + 1) .children ([.keyword container.keyword] ++ w ++
      [.mark .openBrace, .newline] ++ w' ++ [.mark .closeBrace] ++ w'')
  | noFormLine (levels : Nat) (container : FormContainer) :
    DerivesBlock levels (.formLines container) []
  | formNewline {levels : Nat} {w : List Token} {container : FormContainer}
      (rest : DerivesBlock levels (.formLines container) w) :
    DerivesBlock levels (.formLines container) ([.newline] ++ w)
  | formField {levels : Nat} {w w' : List Token} {container : FormContainer}
      (first : DerivesField w)
      (rest : DerivesBlock levels (.formLines container) w') :
    DerivesBlock levels (.formLines container) (w ++ w')
  | formAssignment {levels : Nat} {w w' : List Token} (first : DerivesBlock levels .assignment w)
      (rest : DerivesBlock levels (.formLines .loop) w') :
    DerivesBlock levels (.formLines .loop) (w ++ w')

/-- The tokens of a program: one block with line ends around it, up to the end of input. -/
inductive DerivesProgram : Nat → List Token → Prop where
  | intro {levels : Nat} {w : List Token} (j k : Nat) (block : DerivesBlock levels .block w) :
    DerivesProgram levels (lineEnds j ++ w ++ lineEnds k ++ [.endOfInput])

/-! ## Tiers and their signs -/

/-- The signs of a tier are the tokens that the tier has operators for. -/
theorem Tier.operator?_isSome_iff {t : Tier} {token : Token} :
    (t.operator? token).isSome ↔ ∃ sign ∈ t.signs, token = .mark sign := by
  cases token with
  | mark sign => cases t <;> cases sign <;> decide
  | _ => cases t <;> simp [operator?]

/-- The prefix signs are the tokens that are read as prefix operators. -/
theorem prefixOperator?_isSome_iff {token : Token} :
    (prefixOperator? token).isSome ↔ ∃ sign ∈ prefixSigns, token = .mark sign := by
  cases token with
  | mark sign => cases sign <;> decide
  | _ => simp [prefixOperator?]

/-- A sign of a tier is no operator of a tighter one. -/
theorem Tier.operator?_of_tighter {t u : Tier} {sign : Mark} (h : sign ∈ t.signs)
    (hu : u ∈ t.tighter) : u.operator? (.mark sign) = none := by
  have hall : ∀ sign ∈ t.signs, ∀ u ∈ t.tighter, u.operator? (.mark sign) = none := by
    cases t <;> decide
  exact hall sign h u hu

/-- A list of tiers that goes down to the tightest one. -/
def Tier.Layered (ts : List Tier) : Prop :=
  ts = [] ∨ ∃ t, ts = t :: t.tighter

/-- The tiers that are tighter than one go down to the tightest. -/
theorem Tier.layered_tighter (t : Tier) : Layered t.tighter := by
  cases t with
  | or => exact .inr ⟨and, rfl⟩
  | and => exact .inr ⟨relation, rfl⟩
  | relation => exact .inr ⟨sum, rfl⟩
  | sum => exact .inr ⟨product, rfl⟩
  | product => exact .inl rfl

end FormScript.Grammar
