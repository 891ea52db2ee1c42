import FormScript.Proofs.Progress

/-!
# How the rules call each other

The rules of the grammar recurse on the levels that are left and their loops along the readings
ahead, so that they are total by their form. Here they are written once more as what they are to a
reader of the grammar: `Rule.body call r` is the rule `r` as a plain sequence of steps and of calls
of other rules, with no bound on how deep calls nest or how often a loop turns. A loop is a rule
that calls itself for its next pass. The calls go to `call`, so that nothing is said of where the
recursion ends.

Every rule that succeeds takes a token, up to those that may find nothing to read
(`Rule.run_advances`), and so does every pass of a loop that does not end it. A loop is therefore
its first pass and itself behind it (`collect_many`, `proceed_foldMany`): the readings along which
it recurses never run out first.
-/

namespace FormScript.Grammar

open Parse
open TokenStream (Advances)

/-! ## Rules and their bodies -/

/-- The rules of the grammar, with a rule for each loop. -/
inductive Rule where
  | expression (r : ExpressionRule)
  /-- Line ends that are skipped. -/
  | lineEnds
  /-- The items of an array, up to and with its bracket. -/
  | arrayItems
  | value
  /-- The properties of a field behind those before, up to and with its brace. -/
  | properties (before : List Node)
  | field
  | print
  | declaration
  | assignment
  | loop
  | branch
  /-- The children of a form, up to and with its brace. -/
  | children
  | form
  | statement
  /-- The lines of a block, up to and with its brace. -/
  | lines (construct : String)
  | block (construct : String)
  | program

namespace Rule

/-- What a rule gives. -/
abbrev Result : Rule → Type
  | lineEnds => Unit
  | arrayItems | properties _ | children | lines _ => List Node
  | value => PropertyValue
  | _ => Node

/-- The rule for whole expressions. -/
abbrev whole : Rule :=
  .expression (.tiers Tier.all)

/-- The parser of a rule at the level where a stream stands. -/
def run : (r : Rule) → Parse r.Result
  | .expression r => do r.run (← levelsLeft)
  | .lineEnds => skipNewlines
  | .arrayItems => many "options array" arrayItem?
  | .value => propertyValue
  | .properties before => foldMany "field properties" nextProperty? before
  | .field => fieldDeclaration
  | .print => do printWithin (← levelsLeft)
  | .declaration => do declarationWithin (← levelsLeft)
  | .assignment => do assignmentWithin (← levelsLeft)
  | .loop => do
    let levels ← levelsLeft
    loopWithin levels (blockWithin levels)
  | .branch => do
    let levels ← levelsLeft
    branchWithin levels (blockWithin levels)
  | .children => do
    let levels ← levelsLeft
    many "form declaration" (formChild? levels (blockWithin levels))
  | .form => formDeclaration
  | .statement => Grammar.statement
  | .lines construct => do
    let levels ← levelsLeft
    many construct (blockItem? levels (blockWithin levels) construct)
  | .block construct => Grammar.block construct
  | .program => Grammar.program

end Rule

/-- A pass of a loop that collects items: one item and `more` behind it, unless there is none. -/
def collect {α : Type} (item? : Parse (Option α)) (more : Parse (List α)) : Parse (List α) := do
  match ← item? with
  | none => return []
  | some item => return item :: (← more)

/-- A pass of a loop that threads a state. -/
def proceed {σ : Type} (step? : Parse (Option σ)) (more : σ → Parse σ) (state : σ) : Parse σ := do
  match ← step? with
  | none => return state
  | some state => more state

section
variable (call : (r : Rule) → Parse r.Result)

namespace Calling

/-- An expression of the given tiers: one of the tighter tiers and the operators of the first behind
it. -/
def tiers : List Tier → Parse Node
  | [] => call (.expression .factor)
  | t :: ts => do
    let first ← call (.expression (.tiers ts))
    call (.expression (.chain t first))

/-- The operators of a tier behind `left`. -/
def chain (t : Tier) (left : Node) : Parse Node := do
  let here ← peek
  match t.operator? here.token with
  | none => return left
  | some op =>
    enter "operator chain"
    let _ ← advance
    let right ← call (.expression (.tiers t.tighter))
    let joined := .binary (← fresh here.line) op left right
    let whole ← call (.expression (.chain t joined))
    leave 1
    return whole

/-- An expression in parentheses, a factor behind a prefix operator, or an atom. -/
def factor : Parse Node := do
  let here ← peek
  match here.token with
  | .mark .openParen =>
    enter "parenthesized expression"
    let _ ← advance
    let inner ← call .whole
    expectMark .closeParen "expression"
    leave 1
    return inner
  | token =>
    match prefixOperator? token with
    | none => atom
    | some op =>
      enter "prefix operator"
      let _ ← advance
      let operand ← call (.expression .factor)
      leave 1
      return .unary (← fresh here.line) op operand

/-- Line ends, one by one. -/
def lineEnds : Parse Unit := do
  if ← eat .newline then call .lineEnds else return

/-- One item of an array or its end. -/
def arrayItem? : Parse (Option Node) := do
  call .lineEnds
  if ← eat (.mark .closeBracket) then
    return none
  let item ← arrayItem
  call .lineEnds
  if ← eat (.mark .comma) then
    return some item
  if ← check (.mark .closeBracket) then
    return some item
  unexpected "',' or ']'" "options array"

/-- The items of an array. -/
def arrayItems : Parse (List Node) :=
  collect (arrayItem? call) (call .arrayItems)

/-- The value of a property. -/
def value : Parse PropertyValue := do
  let here ← peek
  match here.token with
  | .text content =>
    let _ ← advance
    return .scalar (.str (← fresh here.line) content)
  | .boolean b =>
    let _ ← advance
    return .scalar (.bool (← fresh here.line) b)
  | .integer n =>
    let _ ← advance
    return .scalar (.int (← fresh here.line) n)
  | .mark .openBracket =>
    expectMark .openBracket "options array"
    return .array (← call .arrayItems)
  | _ => unexpected "a string, boolean, integer or array" "field properties"

/-- One more property or the end of the properties. -/
def nextProperty? (properties : List Node) : Parse (Option (List Node)) := do
  call .lineEnds
  if ← eat (.mark .closeBrace) then
    return none
  let line := (← peek).line
  let key ← expectIdentifier "field properties"
  expectMark .colon "field properties"
  let value ← call .value
  let properties ← putProperty properties line key value
  if ← eat (.mark .comma) then
    return some properties
  if ← check .newline then
    return some properties
  if ← check (.mark .closeBrace) then
    return some properties
  unexpected "',', a newline or '\x7d'" "field properties"

/-- The properties of a field behind those before. -/
def properties (before : List Node) : Parse (List Node) :=
  proceed (nextProperty? call before) (fun now => call (.properties now)) before

/-- A field declaration. -/
def field : Parse Node := do
  let here ← peek
  match here.token with
  | .fieldKind kind =>
    let _ ← advance
    let name ← expectIdentifier "field declaration"
    expectMark .openBrace "field declaration"
    let properties ← call (.properties [])
    return .field (← fresh here.line) kind name properties
  | _ => unexpected "a field type" "field declaration"

/-- A line that prints. -/
def print : Parse Node := do
  let here ← peek
  expectKeyword .print "Println statement"
  expectMark .openParen "Println statement"
  let expr ← call .whole
  expectMark .closeParen "Println statement"
  expectNewline "Println statement"
  return .print (← fresh here.line) expr

/-- The start value of a declaration, if it has one. -/
def init? : Parse (Option Node) := do
  if ← eat (.mark .assign) then
    return some (← call .whole)
  return none

/-- The declaration of a variable. -/
def declaration : Parse Node := do
  let here ← peek
  expectKeyword .declare "variable declaration"
  let name ← expectIdentifier "variable declaration"
  match (← peek).token with
  | .typeName type =>
    let _ ← advance
    let init ← init? call
    expectNewline "variable declaration"
    return .declare (← fresh here.line) name type init
  | _ => unexpected "a type" "variable declaration"

/-- An assignment to a variable. -/
def assignment : Parse Node := do
  let here ← peek
  let name ← expectIdentifier "assignment"
  let target := Node.ident (← fresh here.line) name
  expectMark .assign "assignment"
  let value ← call .whole
  expectNewline "assignment"
  return .assign (← fresh here.line) target value

/-- A loop. -/
def loop : Parse Node := do
  let here ← peek
  expectKeyword .loop "for loop"
  let condition ← call .whole
  let body ← call (.block "for loop")
  expectNewline "for loop"
  return .loop (← fresh here.line) condition body

/-- The other branch of an `if`, if it has one. -/
def otherwise? : Parse (Option Node) := do
  if ← eat (.keyword .otherwise) then
    return some (← call (.block "if statement"))
  return none

/-- A branch on a condition. -/
def branch : Parse Node := do
  let here ← peek
  expectKeyword .branch "if statement"
  let condition ← call .whole
  let positive ← call (.block "if statement")
  let negative ← otherwise? call
  expectNewline "if statement"
  return .branch (← fresh here.line) condition positive negative

/-- One child of a form, or the end of the form. -/
def formChild? : Parse (Option Node) := do
  call .lineEnds
  if ← eat (.mark .closeBrace) then
    return none
  let here ← peek
  match here.token with
  | .keyword .branch =>
    let _ ← advance
    let condition ← call .whole
    let body ← call (.block "form if")
    checkFormBody .branch body
    return some (.branch (← fresh here.line) condition body none)
  | .keyword .loop =>
    let _ ← advance
    let condition ← call .whole
    let body ← call (.block "form for")
    checkFormBody .loop body
    return some (.loop (← fresh here.line) condition body)
  | .fieldKind _ => return some (← call .field)
  | _ => unexpected "a field declaration, 'if' or 'for'" "form declaration"

/-- The children of a form. -/
def children : Parse (List Node) :=
  collect (formChild? call) (call .children)

/-- A form declaration. -/
def form : Parse Node := do
  let here ← peek
  expectKeyword .form "form declaration"
  let name ← expectIdentifier "form declaration"
  expectMark .openBrace "form declaration"
  let body ← call .children
  return .form (← fresh here.line) name body

/-- A statement. -/
def statement : Parse Node := do
  let here ← peek
  match here.token with
  | .keyword .form =>
    let form ← call .form
    let _ ← eat .newline
    return form
  | .keyword .print => call .print
  | .keyword .declare => call .declaration
  | .identifier _ => call .assignment
  | .keyword .loop => call .loop
  | .keyword .branch => call .branch
  | .newline =>
    let _ ← advance
    return .blank (← fresh here.line)
  | _ => unexpected "a statement" "block"

/-- One line of a block, or the end of the block. -/
def line? (construct : String) : Parse (Option Node) := do
  if ← eat (.mark .closeBrace) then
    return none
  if ← check .endOfInput then
    unexpected "'\x7d'" construct
  else if (← peek).token.isFieldKind then
    return some (← call .field)
  else
    return some (← call .statement)

/-- The lines of a block. -/
def lines (construct : String) : Parse (List Node) :=
  collect (line? call construct) (call (.lines construct))

/-- Lines in braces. -/
def block (construct : String) : Parse Node := do
  let here ← peek
  enter construct
  expectMark .openBrace construct
  expectNewline construct
  let body ← call (.lines construct)
  leave 1
  return .block (← fresh here.line) body

/-- A whole program. -/
def program : Parse Node := do
  call .lineEnds
  let root ← call (.block "program")
  call .lineEnds
  let here ← peek
  if here.token = .endOfInput then
    return root
  else
    fail here.line (.trailingInput here.token.display)

end Calling

/-- The body of a rule. All rules that it calls, itself among them, are those of `call`. -/
def Rule.body : (r : Rule) → Parse r.Result
  | .expression .factor => Calling.factor call
  | .expression (.tiers ts) => Calling.tiers call ts
  | .expression (.chain t left) => Calling.chain call t left
  | .lineEnds => Calling.lineEnds call
  | .arrayItems => Calling.arrayItems call
  | .value => Calling.value call
  | .properties before => Calling.properties call before
  | .field => Calling.field call
  | .print => Calling.print call
  | .declaration => Calling.declaration call
  | .assignment => Calling.assignment call
  | .loop => Calling.loop call
  | .branch => Calling.branch call
  | .children => Calling.children call
  | .form => Calling.form call
  | .statement => Calling.statement call
  | .lines construct => Calling.lines call construct
  | .block construct => Calling.block call construct
  | .program => Calling.program call

end

/-! ## What the steps of a rule leave -/

section
variable {α β : Type} {s s' : TokenStream} {construct : String}

/-- Two sequences agree if their first parts do, and the second ones on what these leave. -/
theorem bind_congr_at {p q : Parse α} {f g : α → Parse β} (h : p s = q s)
    (hf : ∀ a s₁, q s = .ok a s₁ → f a s₁ = g a s₁) : (p >>= f) s = (q >>= g) s := by
  cases hq : q s with
  | ok a s₁ => rw [bind_of_ok (h.trans hq), bind_of_ok hq, hf a s₁ hq]
  | error e s₁ => rw [bind_of_error (h.trans hq), bind_of_error hq]

/-- What follows a look at the next token depends on that token only. -/
theorem peek_congr {f g : Lexeme → Parse β} (h : f s.current s = g s.current s) :
    (peek >>= f) s = (peek >>= g) s :=
  h

/-- Taking a token that is not the end of input goes one token on. -/
theorem advance_advances {lexeme : Lexeme} (hs : s.Ended) (ht : s.current.token ≠ .endOfInput)
    (h : advance s = .ok lexeme s') : Advances 1 s s' :=
  (advance_ok hs ht h).2.advances hs

/-- A mark that was demanded is one token. -/
theorem expectMark_advances {mark : Mark} {u : Unit} (hs : s.Ended)
    (h : expectMark mark construct s = .ok u s') : Advances 1 s s' := by
  obtain ⟨s₁, take, -, h⟩ := expectMark_bind_ok (f := pure) hs (bind_of_ok h)
  cases h
  exact take.advances hs

/-- A line end that was demanded is one token. -/
theorem expectNewline_advances {u : Unit} (hs : s.Ended)
    (h : expectNewline construct s = .ok u s') : Advances 1 s s' := by
  obtain ⟨s₁, take, -, h⟩ := expectNewline_bind_ok (f := pure) hs (bind_of_ok h)
  cases h
  exact take.advances hs

/-- A keyword that was demanded is one token. -/
theorem expectKeyword_advances {keyword : Keyword} {u : Unit} (hs : s.Ended)
    (h : expectKeyword keyword construct s = .ok u s') : Advances 1 s s' := by
  obtain ⟨s₁, take, -, h⟩ := expectKeyword_bind_ok (f := pure) hs (bind_of_ok h)
  cases h
  exact take.advances hs

/-- A name that was demanded is one token. -/
theorem expectIdentifier_advances {name : String} (hs : s.Ended)
    (h : expectIdentifier construct s = .ok name s') : Advances 1 s s' := by
  obtain ⟨name, s₁, take, -, h⟩ := expectIdentifier_bind_ok (f := pure) hs (bind_of_ok h)
  cases h
  exact take.advances hs

/-- An optional token is one token where it is there. -/
theorem eat_advances {token : Token} {eaten : Bool} (hs : s.Ended) (hne : token ≠ .endOfInput)
    (h : eat token s = .ok eaten s') : Advances eaten.toNat s s' := by
  rcases eat_bind_ok (f := pure) hs hne (bind_of_ok h) with ⟨s₁, take, -, h⟩ | ⟨-, h⟩
  · cases h
    exact take.advances hs
  · cases h
    exact .refl hs

/-- Skipping line ends never goes back. -/
theorem skipNewlines_advances {u : Unit} (hs : s.Ended) (h : skipNewlines s = .ok u s') :
    Advances 0 s s' :=
  (skipNewlinesFrom_ok hs h).advances hs

/-- At the deepest level a nested construct cannot be opened. -/
theorem enter_bind_deepest {f : Unit → Parse β} (hl : maxDepth - s.depth = 0) :
    (enter construct >>= f) s = (tooDeep construct : Parse β) s :=
  bind_of_error (congrFun (if_neg (by omega)) s)

/-- A construct can be entered where a level is left. -/
theorem enter_bind_within {f : Unit → Parse β} {levels : Nat}
    (hl : maxDepth - s.depth = levels + 1) : (enter construct >>= f) s = f () s.deeper :=
  bind_of_ok (congrFun (if_pos (by omega)) s)

end

section
variable {s s' : TokenStream} {levels : Nat} {n : Node}

/-- A rule for expressions takes the tokens that it takes at least. -/
theorem ExpressionRule.run_advances (r : ExpressionRule) (hs : s.Ended)
    (h : r.run levels s = .ok n s') : Advances r.least s s' := by
  obtain ⟨-, d, -, read⟩ := expression_sound _ r hs h
  exact read.advances hs

/-- A block takes a token at least. -/
theorem blockWithin_advances {construct : String} (hs : s.Ended)
    (h : blockWithin levels construct s = .ok n s') : Advances 1 s s' := by
  obtain ⟨-, d, -, read⟩ := block_sound _ hs h
  exact read.advances hs

end

namespace Rule

/-- The least number of tokens that a rule takes if it succeeds. -/
def least : Rule → Nat
  | .expression r => r.least
  | .lineEnds => 0
  | _ => 1

/-- Every rule takes the tokens that it takes at least. -/
theorem run_advances {r : Rule} {s s' : TokenStream} {a : r.Result} (hs : s.Ended)
    (h : r.run s = .ok a s') : Advances r.least s s' := by
  cases r with
  | expression r => exact r.run_advances hs h
  | lineEnds => exact skipNewlines_advances hs h
  | arrayItems => exact (manyAlong_ok arrayItem?_none arrayItem?_some hs h).2.advances hs
  | value => exact (propertyValue_ok hs h).2.advances hs
  | properties before =>
    exact (foldAlong_ok nextProperty?_none nextProperty?_some hs h).2.advances hs
  | field => exact (field_sound hs h).2.advances hs
  | print =>
    obtain ⟨-, d, -, read⟩ := print_sound hs h
    exact read.advances hs
  | declaration =>
    obtain ⟨-, d, -, read⟩ := declaration_sound hs h
    exact read.advances hs
  | assignment =>
    obtain ⟨-, d, -, read⟩ := assignment_sound hs h
    exact read.advances hs
  | loop =>
    obtain ⟨-, d, -, read⟩ := loop_sound (block_sound _) hs h
    exact read.advances hs
  | branch =>
    obtain ⟨-, d, -, read⟩ := branch_sound (block_sound _) hs h
    exact read.advances hs
  | children =>
    obtain ⟨-, d, -, read⟩ :=
      manyAlong_ok (formChild?_none (block_sound _)) (formChild?_some (block_sound _)) hs h
    exact read.advances hs
  | form =>
    obtain ⟨-, d, -, read⟩ := form_sound (block_sound _) hs h
    exact read.advances hs
  | statement =>
    obtain ⟨-, d, -, read⟩ := statement_sound (block_sound _) hs h
    exact read.advances hs
  | lines construct =>
    obtain ⟨-, d, -, read⟩ := manyAlong_ok blockItem?_none (blockItem?_some (block_sound _)) hs h
    exact read.advances hs
  | block construct => exact blockWithin_advances hs h
  | program =>
    obtain ⟨d, -, before, read, behind, -⟩ := program_sound hs h
    exact ((before.advances hs).step read.advances).step behind.advances

end Rule

/-! ## Passes of loops -/

section
variable {s s' : TokenStream} {levels : Nat}

/-- The operators behind an operand end at once or take a token. -/
theorem chain_advances {t : Tier} {left n : Node} (hs : s.Ended)
    (h : Grammar.chain levels t left s = .ok n s') : n = left ∧ s' = s ∨ Advances 1 s s' := by
  obtain ⟨-, d, -, read⟩ := expression_sound levels (.chain t left) hs h
  cases read with
  | stop => exact .inl ⟨rfl, rfl⟩
  | more _ take right rest =>
    have hright := ((take.advances hs).past right.advances).numbered
    exact .inr (hright.past rest.advances).shallower

/-- An item of an array takes a token. -/
theorem arrayItem?_advances {n : Node} (hs : s.Ended) (h : arrayItem? s = .ok (some n) s') :
    Advances 1 s s' := by
  obtain ⟨s₁, skip, hs₁, h⟩ := skipNewlines_bind_ok hs h
  rcases eat_bind_ok hs₁ (by simp) h with ⟨s₂, -, -, h⟩ | ⟨-, h⟩
  · cases h
  obtain ⟨n', s₂, h₂, h⟩ := bind_ok h
  obtain ⟨hs₂, item⟩ := arrayItem_ok hs₁ h₂
  obtain ⟨s₃, skip', hs₃, h⟩ := skipNewlines_bind_ok hs₂ h
  have hitem := ((skip.advances hs).step item.advances).step skip'.advances
  rcases eat_bind_ok hs₃ (by simp) h with ⟨s₄, comma, -, h⟩ | ⟨-, h⟩
  · cases h
    exact (hitem.step comma.advances).mono (by decide)
  · rw [if_neg (by simp), check_bind] at h
    split at h
    · cases h
      exact hitem
    · exact absurd h unexpected_ne_ok

/-- A property takes a token. -/
theorem nextProperty?_advances {before now : List Node} (hs : s.Ended)
    (h : nextProperty? before s = .ok (some now) s') : Advances 1 s s' := by
  obtain ⟨s₁, skip, hs₁, h⟩ := skipNewlines_bind_ok hs h
  rcases eat_bind_ok hs₁ (by simp) h with ⟨s₂, -, -, h⟩ | ⟨-, h⟩
  · cases h
  rw [if_neg (by simp), peek_bind] at h
  obtain ⟨key, s₂, name, hs₂, h⟩ := expectIdentifier_bind_ok hs₁ h
  obtain ⟨s₃, colon, hs₃, h⟩ := expectMark_bind_ok hs₂ h
  obtain ⟨value, s₄, h₄, h⟩ := bind_ok h
  obtain ⟨hs₄, read⟩ := propertyValue_ok hs₃ h₄
  obtain ⟨after, s₅, put, h⟩ := bind_ok h
  have hproperty := (skip.advances hs).step (ReadsProperty.intro name colon read put).advances
  rcases eat_bind_ok hproperty.ended (by simp) h with ⟨s₆, comma, -, h⟩ | ⟨-, h⟩
  · cases h
    exact (hproperty.step comma.advances).mono (by decide)
  rw [if_neg (by simp), check_bind] at h
  split at h
  · cases h
    exact hproperty
  rw [check_bind] at h
  split at h
  · cases h
    exact hproperty
  · exact absurd h unexpected_ne_ok

/-- A child of a form takes a token. -/
theorem formChild?_advances {n : Node} (hs : s.Ended)
    (h : formChild? levels (blockWithin levels) s = .ok (some n) s') : Advances 1 s s' := by
  obtain ⟨s₁, skip, hs₁, h⟩ := skipNewlines_bind_ok hs h
  rcases eat_bind_ok hs₁ (by simp) h with ⟨s₂, -, -, h⟩ | ⟨-, h⟩
  · cases h
  rw [if_neg (by simp), peek_bind] at h
  cases htoken : s₁.current.token with
  | keyword k =>
    rw [htoken] at h
    cases k with
    | branch | loop =>
      obtain ⟨s₂, word, hs₂, h⟩ := advance_bind_ok hs₁ htoken (by simp) h
      obtain ⟨e, s₃, d, condition, -, hs₃, h⟩ := expressionWithin_bind_ok hs₂ h
      obtain ⟨n', s₄, d', read, -, hs₄, h⟩ := (block_sound levels).bind_ok hs₃ h
      obtain ⟨origin, body, rfl⟩ := read.eq_block
      obtain ⟨-, h⟩ := checkFormBody_bind_ok h
      cases h
      have hcondition := ((skip.advances hs).step word.advances).step condition.advances
      exact ((hcondition.step read.advances).mono (by decide)).numbered
    | _ => exact absurd h unexpected_ne_ok
  | fieldKind kind =>
    rw [htoken] at h
    obtain ⟨n', s₂, h₂, h⟩ := bind_ok h
    obtain ⟨-, first⟩ := field_sound hs₁ h₂
    cases h
    exact (skip.advances hs).step first.advances
  | _ =>
    rw [htoken] at h
    exact absurd h unexpected_ne_ok

/-- A line of a block takes a token. -/
theorem blockItem?_advances {construct : String} {n : Node} (hs : s.Ended)
    (h : blockItem? levels (blockWithin levels) construct s = .ok (some n) s') :
    Advances 1 s s' := by
  rcases eat_bind_ok hs (by simp) h with ⟨s₁, -, -, h⟩ | ⟨-, h⟩
  · cases h
  rw [if_neg (by simp), check_bind] at h
  split at h
  · exact absurd h unexpected_ne_ok
  rw [peek_bind] at h
  split at h
  · obtain ⟨n', s₁, h₁, h⟩ := bind_ok h
    obtain ⟨-, first⟩ := field_sound hs h₁
    cases h
    exact first.advances hs
  · obtain ⟨n', s₁, h₁, h⟩ := bind_ok h
    obtain ⟨-, d, -, first⟩ := statement_sound (block_sound levels) hs h₁
    cases h
    exact first.advances hs

end

section
variable {α : Type} {construct : String} {item? : Parse (Option α)}

/-- A loop whose passes take tokens does not meet a bound that is as long as the readings ahead. -/
theorem manyAlong_bound (hitem : ∀ {s a s'}, s.Ended → item? s = .ok (some a) s' → Advances 1 s s')
    {along along' : List Reading} {s : TokenStream} (hs : s.Ended)
    (hle : s.ahead.length ≤ along.length) (hle' : s.ahead.length ≤ along'.length) :
    manyAlong construct item? along s = manyAlong construct item? along' s := by
  induction along generalizing along' s with
  | nil =>
    -- nothing is ahead, so the first pass ends the loop
    rw [manyAlong, manyAlong.eq_def construct item? along']
    refine bind_congr_at rfl fun found s₁ h₁ => ?_
    cases found with
    | none => rfl
    | some a =>
      have := (hitem hs h₁).ahead_le
      rw [List.length_nil] at hle
      omega
  | cons reading along ih =>
    rw [manyAlong, manyAlong.eq_def construct item? along']
    refine bind_congr_at rfl fun found s₁ h₁ => ?_
    cases found with
    | none => rfl
    | some a =>
      have hadvance := hitem hs h₁
      have := hadvance.ahead_le
      cases along' with
      | nil =>
        rw [List.length_nil] at hle'
        omega
      | cons reading' along' =>
        rw [List.length_cons] at hle hle'
        exact bind_congr_at (ih hadvance.ended (by omega) (by omega)) fun _ _ _ => rfl

/-- A loop is its first pass, and itself behind it. -/
theorem collect_many (hitem : ∀ {s a s'}, s.Ended → item? s = .ok (some a) s' → Advances 1 s s')
    {s : TokenStream} (hs : s.Ended) :
    collect item? (many construct item?) s = many construct item? s := by
  show _ = manyAlong construct item? s.ahead s
  rw [manyAlong.eq_def, collect]
  refine bind_congr_at rfl fun found s₁ h₁ => ?_
  cases found with
  | none => rfl
  | some a =>
    have hadvance := hitem hs h₁
    have hle := hadvance.ahead_le
    cases hahead : s.ahead with
    | nil =>
      rw [hahead, List.length_nil] at hle
      omega
    | cons reading along =>
      rw [hahead, List.length_cons] at hle
      exact bind_congr_at (manyAlong_bound hitem hadvance.ended (Nat.le_refl _) (by omega))
        fun _ _ _ => rfl

end

section
variable {σ : Type} {construct : String} {step? : σ → Parse (Option σ)}

/-- A loop whose steps take tokens does not depend on its bound, if this covers the tokens ahead. -/
theorem foldAlong_bound
    (hstep : ∀ {a s b s'}, s.Ended → step? a s = .ok (some b) s' → Advances 1 s s')
    {along along' : List Reading} {s : TokenStream} {state : σ} (hs : s.Ended)
    (hle : s.ahead.length ≤ along.length) (hle' : s.ahead.length ≤ along'.length) :
    foldAlong construct step? along state s = foldAlong construct step? along' state s := by
  induction along generalizing along' s state with
  | nil =>
    rw [foldAlong, foldAlong.eq_def construct step? along']
    refine bind_congr_at rfl fun found s₁ h₁ => ?_
    cases found with
    | none => rfl
    | some state =>
      have := (hstep hs h₁).ahead_le
      rw [List.length_nil] at hle
      omega
  | cons reading along ih =>
    rw [foldAlong, foldAlong.eq_def construct step? along']
    refine bind_congr_at rfl fun found s₁ h₁ => ?_
    cases found with
    | none => rfl
    | some state =>
      have hadvance := hstep hs h₁
      have := hadvance.ahead_le
      cases along' with
      | nil =>
        rw [List.length_nil] at hle'
        omega
      | cons reading' along' =>
        rw [List.length_cons] at hle hle'
        exact ih hadvance.ended (by omega) (by omega)

/-- A loop whose steps take tokens is one pass and the loop behind it. -/
theorem proceed_foldMany
    (hstep : ∀ {a s b s'}, s.Ended → step? a s = .ok (some b) s' → Advances 1 s s')
    {s : TokenStream} (state : σ) (hs : s.Ended) :
    proceed (step? state) (foldMany construct step?) state s =
      foldMany construct step? state s := by
  show _ = foldAlong construct step? s.ahead state s
  rw [foldAlong.eq_def, proceed]
  refine bind_congr_at rfl fun found s₁ h₁ => ?_
  cases found with
  | none => rfl
  | some state =>
    have hadvance := hstep hs h₁
    have hle := hadvance.ahead_le
    cases hahead : s.ahead with
    | nil =>
      rw [hahead, List.length_nil] at hle
      omega
    | cons reading along =>
      rw [hahead, List.length_cons] at hle
      exact foldAlong_bound hstep hadvance.ended (Nat.le_refl _) (by omega)

end

end FormScript.Grammar
