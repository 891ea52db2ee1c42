import FormScript.Grammar.Statement
import FormScript.Proofs.Reading.Expression
import FormScript.Proofs.Reading.Field

/-!
# How blocks, statements and forms are read

`ReadsBlock r d s ns s'` says that the rule `r` reads the nodes `ns` from the stream `s`, leaves
`s'` and opens at most `d` nested constructs at a time. The rules for a block, a statement and a
form read a single node, those for the lines of a block and the children of a form a list, up to and
with the closing brace. As for expressions, a successful run is a reading (`block_sound`), and a
reading is what a run gives or fails for too deep nesting (`ReadsBlock.yields`).
-/

namespace FormScript.Grammar

open Parse

/-- The word that starts a block of a form. -/
def FormContainer.keyword : FormContainer → Keyword
  | branch => .branch
  | loop => .loop

/-- The node of a block of a form. -/
def FormContainer.toNode (origin : Origin) (condition body : Node) : FormContainer → Node
  | branch => .branch origin condition body none
  | loop => .loop origin condition body

/-- A rule for blocks and what stands in them. -/
inductive BlockRule where
  | block
  | items
  | statement
  | form
  | children

/-- A rule reads nodes within a number of levels. -/
inductive ReadsBlock : BlockRule → Nat → TokenStream → List Node → TokenStream → Prop where
  | block {s s₁ s₂ s₃ : TokenStream} {d : Nat} {body : List Node}
      (left : s.deeper.Takes (.mark .openBrace) s₁) (newline : s₁.Takes .newline s₂)
      (read : ReadsBlock .items d s₂ body s₃) :
    ReadsBlock .block (d + 1) s [.block (s₃.shallower.originAt s.current.line) body]
      s₃.shallower.numbered
  | close {s s' : TokenStream} (right : s.Takes (.mark .closeBrace) s') :
      ReadsBlock .items 0 s [] s'
  | field {s s₁ s' : TokenStream} {d : Nat} {n : Node} {ns : List Node} (first : ReadsField s n s₁)
      (rest : ReadsBlock .items d s₁ ns s') :
    ReadsBlock .items d s (n :: ns) s'
  | statement {s s₁ s' : TokenStream} {d d' : Nat} {n : Node} {ns : List Node}
      (first : ReadsBlock .statement d s [n] s₁) (rest : ReadsBlock .items d' s₁ ns s') :
    ReadsBlock .items (max d d') s (n :: ns) s'
  | print {s s₁ s₂ s₃ s₄ s₅ : TokenStream} {d : Nat} {e : Node}
      (word : s.Takes (.keyword .print) s₁) (left : s₁.Takes (.mark .openParen) s₂)
      (expr : ReadsExpression (.tiers Tier.all) d s₂ e s₃) (right : s₃.Takes (.mark .closeParen) s₄)
      (newline : s₄.Takes .newline s₅) :
    ReadsBlock .statement d s [.print (s₅.originAt s.current.line) e] s₅.numbered
  | declare {s s₁ s₂ s₃ s₄ : TokenStream} {name : String} {type : Ty}
      (word : s.Takes (.keyword .declare) s₁) (title : s₁.Takes (.identifier name) s₂)
      (sort : s₂.Takes (.typeName type) s₃) (newline : s₃.Takes .newline s₄) :
    ReadsBlock .statement 0 s [.declare (s₄.originAt s.current.line) name type none] s₄.numbered
  | declareInit {s s₁ s₂ s₃ s₄ s₅ s₆ : TokenStream} {d : Nat} {name : String} {type : Ty} {e : Node}
      (word : s.Takes (.keyword .declare) s₁) (title : s₁.Takes (.identifier name) s₂)
      (sort : s₂.Takes (.typeName type) s₃) (sign : s₃.Takes (.mark .assign) s₄)
      (init : ReadsExpression (.tiers Tier.all) d s₄ e s₅) (newline : s₅.Takes .newline s₆) :
    ReadsBlock .statement d s [.declare (s₆.originAt s.current.line) name type (some e)] s₆.numbered
  | assign {s s₁ s₂ s₃ s₄ : TokenStream} {d : Nat} {name : String} {e : Node}
      (title : s.Takes (.identifier name) s₁) (sign : s₁.numbered.Takes (.mark .assign) s₂)
      (value : ReadsExpression (.tiers Tier.all) d s₂ e s₃) (newline : s₃.Takes .newline s₄) :
    ReadsBlock .statement d s
      [.assign (s₄.originAt s.current.line) (.ident (s₁.originAt s.current.line) name) e]
        s₄.numbered
  | loop {s s₁ s₂ s₃ s₄ : TokenStream} {d d' : Nat} {e body : Node}
      (word : s.Takes (.keyword .loop) s₁) (condition : ReadsExpression (.tiers Tier.all) d s₁ e s₂)
      (read : ReadsBlock .block d' s₂ [body] s₃) (newline : s₃.Takes .newline s₄) :
    ReadsBlock .statement (max d d') s [.loop (s₄.originAt s.current.line) e body] s₄.numbered
  | branch {s s₁ s₂ s₃ s₄ : TokenStream} {d d' : Nat} {e positive : Node}
      (word : s.Takes (.keyword .branch) s₁)
      (condition : ReadsExpression (.tiers Tier.all) d s₁ e s₂)
      (read : ReadsBlock .block d' s₂ [positive] s₃) (newline : s₃.Takes .newline s₄) :
    ReadsBlock .statement (max d d') s [.branch (s₄.originAt s.current.line) e positive none]
      s₄.numbered
  | branchElse {s s₁ s₂ s₃ s₄ s₅ s₆ : TokenStream} {d d' d'' : Nat} {e positive negative : Node}
      (word : s.Takes (.keyword .branch) s₁)
      (condition : ReadsExpression (.tiers Tier.all) d s₁ e s₂)
      (read : ReadsBlock .block d' s₂ [positive] s₃) (other : s₃.Takes (.keyword .otherwise) s₄)
      (read' : ReadsBlock .block d'' s₄ [negative] s₅) (newline : s₅.Takes .newline s₆) :
    ReadsBlock .statement (max d (max d' d'')) s
      [.branch (s₆.originAt s.current.line) e positive (some negative)] s₆.numbered
  | blank {s s₁ : TokenStream} (newline : s.Takes .newline s₁) :
    ReadsBlock .statement 0 s [.blank (s₁.originAt s.current.line)] s₁.numbered
  | formLine {s s₁ s' : TokenStream} {d : Nat} {n : Node} (read : ReadsBlock .form d s [n] s₁)
      (newline : s₁.Takes .newline s') :
    ReadsBlock .statement d s [n] s'
  | formBare {s s' : TokenStream} {d : Nat} {n : Node} (read : ReadsBlock .form d s [n] s')
      (other : s'.current.token ≠ .newline) :
    ReadsBlock .statement d s [n] s'
  | form {s s₁ s₂ s₃ s₄ : TokenStream} {d : Nat} {name : String} {body : List Node}
      (word : s.Takes (.keyword .form) s₁) (title : s₁.Takes (.identifier name) s₂)
      (left : s₂.Takes (.mark .openBrace) s₃) (read : ReadsBlock .children d s₃ body s₄) :
    ReadsBlock .form d s [.form (s₄.originAt s.current.line) name body] s₄.numbered
  | formClose {s s₁ s' : TokenStream} (skip : s.Skips s₁)
      (right : s₁.Takes (.mark .closeBrace) s') :
    ReadsBlock .children 0 s [] s'
  | formField {s s₁ s₂ s' : TokenStream} {d : Nat} {n : Node} {ns : List Node} (skip : s.Skips s₁)
      (first : ReadsField s₁ n s₂) (rest : ReadsBlock .children d s₂ ns s') :
    ReadsBlock .children d s (n :: ns) s'
  | formBlock {s s₁ s₂ s₃ s₄ s' : TokenStream} {d d' d'' : Nat} {c : FormContainer} {e : Node}
      {origin : Origin} {body ns : List Node} (skip : s.Skips s₁)
      (word : s₁.Takes (.keyword c.keyword) s₂)
      (condition : ReadsExpression (.tiers Tier.all) d s₂ e s₃)
      (read : ReadsBlock .block d' s₃ [.block origin body] s₄)
      (admitted : ∀ n ∈ body, c.admits n = true)
      (rest : ReadsBlock .children d'' s₄.numbered ns s') :
    ReadsBlock .children (max (max d d') d'') s
      (c.toNode (s₄.originAt s₁.current.line) e (.block origin body) :: ns) s'

/-! ## Successful runs are readings -/

section
variable {s s' : TokenStream} {levels : Nat}

/-- Every block that is read with the given levels is read within them. -/
def BlockSound (levels : Nat) : Prop :=
  ∀ ⦃construct : String⦄ ⦃s : TokenStream⦄ ⦃n : Node⦄ ⦃s' : TokenStream⦄, s.Ended →
    blockWithin levels construct s = .ok n s' →
    s'.Ended ∧ ∃ d ≤ levels, ReadsBlock .block d s [n] s'

/-- A parser that starts with an expression and succeeds has read one. -/
theorem expressionWithin_bind_ok {β : Type} {f : Node → Parse β} {b : β} (hs : s.Ended)
    (h : (expressionWithin levels >>= f) s = .ok b s') :
    ∃ e s₁ d, ReadsExpression (.tiers Tier.all) d s e s₁ ∧ d ≤ levels ∧ s₁.Ended ∧
      f e s₁ = .ok b s' := by
  obtain ⟨e, s₁, h₁, h⟩ := bind_ok h
  obtain ⟨hs₁, d, hd, read⟩ := expression_sound levels (.tiers Tier.all) hs h₁
  exact ⟨e, s₁, d, read, hd, hs₁, h⟩

/-- A parser that starts with a block and succeeds has read one. -/
theorem BlockSound.bind_ok {β : Type} {f : Node → Parse β} {b : β} {construct : String}
    (hb : BlockSound levels) (hs : s.Ended)
    (h : (blockWithin levels construct >>= f) s = .ok b s') :
    ∃ n s₁ d, ReadsBlock .block d s [n] s₁ ∧ d ≤ levels ∧ s₁.Ended ∧ f n s₁ = .ok b s' := by
  obtain ⟨n, s₁, h₁, h⟩ := Parse.bind_ok h
  obtain ⟨hs₁, d, hd, read⟩ := hb hs h₁
  exact ⟨n, s₁, d, read, hd, hs₁, h⟩

/-- A line that prints is read within the levels left. -/
theorem print_sound {n : Node} (hs : s.Ended) (h : printWithin levels s = .ok n s') :
    s'.Ended ∧ ∃ d ≤ levels, ReadsBlock .statement d s [n] s' := by
  rw [printWithin, peek_bind] at h
  obtain ⟨s₁, word, hs, h⟩ := expectKeyword_bind_ok hs h
  obtain ⟨s₂, left, hs, h⟩ := expectMark_bind_ok hs h
  obtain ⟨e, s₃, d, expr, hd, hs, h⟩ := expressionWithin_bind_ok hs h
  obtain ⟨s₄, right, hs, h⟩ := expectMark_bind_ok hs h
  obtain ⟨s₅, newline, hs, h⟩ := expectNewline_bind_ok hs h
  cases h
  exact ⟨hs, d, hd, .print word left expr right newline⟩

/-- A declaration is read within the levels left. -/
theorem declaration_sound {n : Node} (hs : s.Ended) (h : declarationWithin levels s = .ok n s') :
    s'.Ended ∧ ∃ d ≤ levels, ReadsBlock .statement d s [n] s' := by
  rw [declarationWithin, peek_bind] at h
  obtain ⟨s₁, word, hs, h⟩ := expectKeyword_bind_ok hs h
  obtain ⟨name, s₂, title, hs, h⟩ := expectIdentifier_bind_ok hs h
  rw [peek_bind] at h
  cases htoken : s₂.current.token with
  | typeName type =>
    rw [htoken] at h
    obtain ⟨s₃, sort, hs, h⟩ := advance_bind_ok hs htoken (by simp) h
    obtain ⟨init, s₄, h₄, h⟩ := bind_ok h
    rcases eat_bind_ok hs (by simp) h₄ with ⟨s₅, sign, hs, h₄⟩ | ⟨-, h₄⟩
    · obtain ⟨e, s₆, d, read, hd, hs, h₄⟩ := expressionWithin_bind_ok hs h₄
      cases h₄
      obtain ⟨s₇, newline, hs, h⟩ := expectNewline_bind_ok hs h
      cases h
      exact ⟨hs, d, hd, .declareInit word title sort sign read newline⟩
    · cases h₄
      obtain ⟨s₅, newline, hs, h⟩ := expectNewline_bind_ok hs h
      cases h
      exact ⟨hs, 0, Nat.zero_le _, .declare word title sort newline⟩
  | _ =>
    rw [htoken] at h
    exact absurd h unexpected_ne_ok

/-- An assignment is read within the levels left. -/
theorem assignment_sound {n : Node} (hs : s.Ended) (h : assignmentWithin levels s = .ok n s') :
    s'.Ended ∧ ∃ d ≤ levels, ReadsBlock .statement d s [n] s' := by
  rw [assignmentWithin, peek_bind] at h
  obtain ⟨name, s₁, title, hs, h⟩ := expectIdentifier_bind_ok hs h
  rw [fresh_bind] at h
  obtain ⟨s₂, sign, hs, h⟩ := expectMark_bind_ok (TokenStream.ended_numbered.2 hs) h
  obtain ⟨e, s₃, d, value, hd, hs, h⟩ := expressionWithin_bind_ok hs h
  obtain ⟨s₄, newline, hs, h⟩ := expectNewline_bind_ok hs h
  cases h
  exact ⟨hs, d, hd, .assign title sign value newline⟩

/-- A loop is read within the levels left, if its block is. -/
theorem loop_sound {n : Node} (hb : BlockSound levels) (hs : s.Ended)
    (h : loopWithin levels (blockWithin levels) s = .ok n s') :
    s'.Ended ∧ ∃ d ≤ levels, ReadsBlock .statement d s [n] s' := by
  rw [loopWithin, peek_bind] at h
  obtain ⟨s₁, word, hs, h⟩ := expectKeyword_bind_ok hs h
  obtain ⟨e, s₂, d, condition, hd, hs, h⟩ := expressionWithin_bind_ok hs h
  obtain ⟨body, s₃, d', read, hd', hs, h⟩ := hb.bind_ok hs h
  obtain ⟨s₄, newline, hs, h⟩ := expectNewline_bind_ok hs h
  cases h
  exact ⟨hs, max d d', Nat.max_le.2 ⟨hd, hd'⟩, .loop word condition read newline⟩

/-- A branch on a condition is read within the levels left, if its blocks are. -/
theorem branch_sound {n : Node} (hb : BlockSound levels) (hs : s.Ended)
    (h : branchWithin levels (blockWithin levels) s = .ok n s') :
    s'.Ended ∧ ∃ d ≤ levels, ReadsBlock .statement d s [n] s' := by
  rw [branchWithin, peek_bind] at h
  obtain ⟨s₁, word, hs, h⟩ := expectKeyword_bind_ok hs h
  obtain ⟨e, s₂, d, condition, hd, hs, h⟩ := expressionWithin_bind_ok hs h
  obtain ⟨positive, s₃, d', read, hd', hs, h⟩ := hb.bind_ok hs h
  obtain ⟨negative, s₄, h₄, h⟩ := bind_ok h
  rcases eat_bind_ok hs (by simp) h₄ with ⟨s₅, other, hs, h₄⟩ | ⟨-, h₄⟩
  · obtain ⟨negative', s₆, d'', read', hd'', hs, h₄⟩ := hb.bind_ok hs h₄
    cases h₄
    obtain ⟨s₇, newline, hs, h⟩ := expectNewline_bind_ok hs h
    cases h
    exact ⟨hs, max d (max d' d''), Nat.max_le.2 ⟨hd, Nat.max_le.2 ⟨hd', hd''⟩⟩,
      .branchElse word condition read other read' newline⟩
  · cases h₄
    obtain ⟨s₅, newline, hs, h⟩ := expectNewline_bind_ok hs h
    cases h
    exact ⟨hs, max d d', Nat.max_le.2 ⟨hd, hd'⟩, .branch word condition read newline⟩

/-- What is read as a block is one. -/
theorem ReadsBlock.eq_block {d : Nat} {n : Node} (h : ReadsBlock .block d s [n] s') :
    ∃ origin body, n = .block origin body := by
  cases h
  exact ⟨_, _, rfl⟩

/-- What is read as a form is one. -/
theorem ReadsBlock.eq_form {d : Nat} {n : Node} (h : ReadsBlock .form d s [n] s') :
    ∃ origin name body, n = .form origin name body := by
  cases h
  exact ⟨_, _, _, rfl⟩

/-- The check of a form's block passes if the form admits every statement in it. -/
theorem checkFormBody_of_admitted {c : FormContainer} {origin : Origin} {body : List Node}
    (h : ∀ n ∈ body, c.admits n = true) : checkFormBody c (.block origin body) s = .ok () s := by
  have hfind : body.find? (fun statement => !c.admits statement) = none := by
    rw [List.find?_eq_none]
    intro n hn
    simp [h n hn]
  rw [checkFormBody, hfind]
  rfl

/-- A block of a form that passes the check has no line that the form does not admit. -/
theorem checkFormBody_bind_ok {β : Type} {f : Unit → Parse β} {b : β} {c : FormContainer}
    {origin : Origin} {body : List Node}
    (h : (checkFormBody c (.block origin body) >>= f) s = .ok b s') :
    (∀ n ∈ body, c.admits n = true) ∧ f () s = .ok b s' := by
  cases hfind : body.find? (fun statement => !c.admits statement) with
  | none =>
    have hall : ∀ n ∈ body, c.admits n = true := by
      simpa [List.find?_eq_none] using hfind
    rw [bind_of_ok (checkFormBody_of_admitted hall)] at h
    exact ⟨hall, h⟩
  | some statement =>
    rw [checkFormBody, hfind] at h
    obtain ⟨u, s₁, h₁, -⟩ := bind_ok h
    exact absurd h₁ fail_ne_ok

/-- A block of a form behind its keyword, in front of the rest of the form. -/
theorem formBlock_sound {s₁ s₂ : TokenStream} {c : FormContainer} {construct : String} {n : Node}
    (hb : BlockSound levels) (skip : s.Skips s₁) (word : s₁.Takes (.keyword c.keyword) s₂)
    (hs : s₂.Ended)
    (h : (do
      let condition ← expressionWithin levels
      let body ← blockWithin levels construct
      checkFormBody c body
      return some (c.toNode (← fresh s₁.current.line) condition body)) s₂ = .ok (some n) s') :
    s'.Ended ∧ ∀ {ns s''}, (∃ d ≤ levels, ReadsBlock .children d s' ns s'') →
      ∃ d ≤ levels, ReadsBlock .children d s (n :: ns) s'' := by
  obtain ⟨e, s₃, d, condition, hd, hs, h⟩ := expressionWithin_bind_ok hs h
  obtain ⟨n', s₄, d', read, hd', hs, h⟩ := hb.bind_ok hs h
  obtain ⟨origin, body, rfl⟩ := read.eq_block
  obtain ⟨admitted, h⟩ := checkFormBody_bind_ok h
  cases h
  refine ⟨hs, fun ⟨d'', hd'', rest⟩ => ⟨max (max d d') d'', ?_, ?_⟩⟩
  · exact Nat.max_le.2 ⟨Nat.max_le.2 ⟨hd, hd'⟩, hd''⟩
  · exact .formBlock skip word condition read admitted rest

/-- The end of a form is read as no more children. -/
theorem formChild?_none (hb : BlockSound levels) (hs : s.Ended)
    (h : formChild? levels (blockWithin levels) s = .ok none s') :
    s'.Ended ∧ ∃ d ≤ levels, ReadsBlock .children d s [] s' := by
  obtain ⟨s₁, skip, hs, h⟩ := skipNewlines_bind_ok hs h
  rcases eat_bind_ok hs (by simp) h with ⟨s₂, right, hs, h⟩ | ⟨-, h⟩
  · cases h
    exact ⟨hs, 0, Nat.zero_le _, .formClose skip right⟩
  · rw [if_neg (by simp), peek_bind] at h
    cases htoken : s₁.current.token with
    | keyword k =>
      rw [htoken] at h
      cases k with
      | branch | loop =>
        obtain ⟨s₂, -, hs, h⟩ := advance_bind_ok hs htoken (by simp) h
        obtain ⟨e, s₃, d, -, -, hs, h⟩ := expressionWithin_bind_ok hs h
        obtain ⟨body, s₄, d', -, -, hs, h⟩ := hb.bind_ok hs h
        obtain ⟨u, s₅, -, h⟩ := bind_ok h
        cases h
      | _ => exact absurd h unexpected_ne_ok
    | fieldKind kind =>
      rw [htoken] at h
      obtain ⟨n, s₂, -, h⟩ := bind_ok h
      cases h
    | _ =>
      rw [htoken] at h
      exact absurd h unexpected_ne_ok

/-- One more child in front of the rest of a form. -/
theorem formChild?_some {n : Node} (hb : BlockSound levels) (hs : s.Ended)
    (h : formChild? levels (blockWithin levels) s = .ok (some n) s') :
    s'.Ended ∧ ∀ {ns s''}, (∃ d ≤ levels, ReadsBlock .children d s' ns s'') →
      ∃ d ≤ levels, ReadsBlock .children d s (n :: ns) s'' := by
  obtain ⟨s₁, skip, hs, h⟩ := skipNewlines_bind_ok hs h
  rcases eat_bind_ok hs (by simp) h with ⟨s₂, -, -, h⟩ | ⟨-, h⟩
  · cases h
  rw [if_neg (by simp), peek_bind] at h
  cases htoken : s₁.current.token with
  | keyword k =>
    rw [htoken] at h
    cases k with
    | branch =>
      obtain ⟨s₂, word, hs, h⟩ := advance_bind_ok hs htoken (by simp) h
      exact formBlock_sound (c := .branch) hb skip word hs h
    | loop =>
      obtain ⟨s₂, word, hs, h⟩ := advance_bind_ok hs htoken (by simp) h
      exact formBlock_sound (c := .loop) hb skip word hs h
    | _ => exact absurd h unexpected_ne_ok
  | fieldKind kind =>
    rw [htoken] at h
    obtain ⟨n', s₂, h₂, h⟩ := bind_ok h
    obtain ⟨hs, first⟩ := field_sound hs h₂
    cases h
    exact ⟨hs, fun ⟨d, hd, rest⟩ => ⟨d, hd, .formField skip first rest⟩⟩
  | _ =>
    rw [htoken] at h
    exact absurd h unexpected_ne_ok

/-- A form is read within the levels left, if its blocks are. -/
theorem form_sound {n : Node} (hb : BlockSound levels) (hs : s.Ended)
    (h : formWithin levels (blockWithin levels) s = .ok n s') :
    s'.Ended ∧ ∃ d ≤ levels, ReadsBlock .form d s [n] s' := by
  rw [formWithin, peek_bind] at h
  obtain ⟨s₁, word, hs, h⟩ := expectKeyword_bind_ok hs h
  obtain ⟨name, s₂, title, hs, h⟩ := expectIdentifier_bind_ok hs h
  obtain ⟨s₃, left, hs, h⟩ := expectMark_bind_ok hs h
  obtain ⟨body, s₄, h₄, h⟩ := bind_ok h
  obtain ⟨hs, d, hd, read⟩ := manyAlong_ok (formChild?_none hb) (formChild?_some hb) hs h₄
  cases h
  exact ⟨hs, d, hd, .form word title left read⟩

/-- A statement is read within the levels left, if its blocks are. -/
theorem statement_sound {n : Node} (hb : BlockSound levels) (hs : s.Ended)
    (h : statementWithin levels (blockWithin levels) s = .ok n s') :
    s'.Ended ∧ ∃ d ≤ levels, ReadsBlock .statement d s [n] s' := by
  rw [statementWithin, peek_bind] at h
  cases htoken : s.current.token with
  | keyword k =>
    rw [htoken] at h
    cases k with
    | form =>
      obtain ⟨n', s₁, h₁, h⟩ := bind_ok h
      obtain ⟨hs, d, hd, read⟩ := form_sound hb hs h₁
      rcases eat_bind_ok hs (by simp) h with ⟨s₂, newline, hs, h⟩ | ⟨other, h⟩
      · cases h
        exact ⟨hs, d, hd, .formLine read newline⟩
      · cases h
        exact ⟨hs, d, hd, .formBare read other⟩
    | print => exact print_sound hs h
    | declare => exact declaration_sound hs h
    | loop => exact loop_sound hb hs h
    | branch => exact branch_sound hb hs h
    | _ => exact absurd h unexpected_ne_ok
  | identifier name =>
    rw [htoken] at h
    exact assignment_sound hs h
  | newline =>
    rw [htoken] at h
    obtain ⟨s₁, newline, hs, h⟩ := advance_bind_ok hs htoken (by simp) h
    cases h
    exact ⟨hs, 0, Nat.zero_le _, .blank newline⟩
  | _ =>
    rw [htoken] at h
    exact absurd h unexpected_ne_ok

/-- The end of a block is read as no more lines. -/
theorem blockItem?_none {construct : String} (hs : s.Ended)
    (h : blockItem? levels (blockWithin levels) construct s = .ok none s') :
    s'.Ended ∧ ∃ d ≤ levels, ReadsBlock .items d s [] s' := by
  rcases eat_bind_ok hs (by simp) h with ⟨s₁, right, hs, h⟩ | ⟨-, h⟩
  · cases h
    exact ⟨hs, 0, Nat.zero_le _, .close right⟩
  · rw [if_neg (by simp), check_bind] at h
    split at h
    · exact absurd h unexpected_ne_ok
    · rw [peek_bind] at h
      split at h
      · obtain ⟨n, s₁, -, h⟩ := bind_ok h
        cases h
      · obtain ⟨n, s₁, -, h⟩ := bind_ok h
        cases h

/-- One more line in front of the rest of a block. -/
theorem blockItem?_some {construct : String} {n : Node} (hb : BlockSound levels) (hs : s.Ended)
    (h : blockItem? levels (blockWithin levels) construct s = .ok (some n) s') :
    s'.Ended ∧ ∀ {ns s''}, (∃ d ≤ levels, ReadsBlock .items d s' ns s'') →
      ∃ d ≤ levels, ReadsBlock .items d s (n :: ns) s'' := by
  rcases eat_bind_ok hs (by simp) h with ⟨s₁, -, -, h⟩ | ⟨-, h⟩
  · cases h
  rw [if_neg (by simp), check_bind] at h
  split at h
  · exact absurd h unexpected_ne_ok
  rw [peek_bind] at h
  split at h
  · obtain ⟨n', s₁, h₁, h⟩ := bind_ok h
    obtain ⟨hs, first⟩ := field_sound hs h₁
    cases h
    exact ⟨hs, fun ⟨d, hd, rest⟩ => ⟨d, hd, .field first rest⟩⟩
  · obtain ⟨n', s₁, h₁, h⟩ := bind_ok h
    obtain ⟨hs, d, hd, first⟩ := statement_sound hb hs h₁
    cases h
    exact ⟨hs, fun ⟨d', hd', rest⟩ => ⟨max d d', Nat.max_le.2 ⟨hd, hd'⟩, .statement first rest⟩⟩

/-- A successful run of the rule for blocks is a reading within the levels that are left. -/
theorem block_sound (levels : Nat) : BlockSound levels := by
  induction levels with
  | zero =>
    intro construct s n s' hs h
    exact absurd h tooDeep_ne_ok
  | succ levels ih =>
    intro construct s n s' hs h
    rw [blockWithin, peek_bind, descend_bind] at h
    obtain ⟨s₁, left, hs, h⟩ := expectMark_bind_ok (TokenStream.ended_deeper.2 hs) h
    obtain ⟨s₂, newline, hs, h⟩ := expectNewline_bind_ok hs h
    obtain ⟨body, s₃, h₃, h⟩ := bind_ok h
    obtain ⟨hs, d, hd, read⟩ := manyAlong_ok blockItem?_none (blockItem?_some ih) hs h₃
    cases h
    exact ⟨hs, d + 1, Nat.succ_le_succ hd, .block left newline read⟩

end

/-! ## Readings are what a run gives -/

/-- Every rule takes a token. -/
theorem ReadsBlock.ahead_lt {r : BlockRule} {d : Nat} {s s' : TokenStream} {ns : List Node}
    (h : ReadsBlock r d s ns s') : s'.ahead.length < s.ahead.length := by
  induction h with
  | block left newline _ ih => exact Nat.lt_trans ih (Nat.lt_trans newline.ahead_lt left.ahead_lt)
  | close right => exact right.ahead_lt
  | field first _ ih => exact Nat.lt_trans ih first.ahead_lt
  | statement _ _ ih ih' => exact Nat.lt_trans ih' ih
  | print word left expr right newline =>
    have := word.ahead_lt
    have := left.ahead_lt
    have := expr.ahead_le
    have := right.ahead_lt
    have := newline.ahead_lt
    rw [TokenStream.ahead_numbered]
    omega
  | declare word title sort newline =>
    have := word.ahead_lt
    have := title.ahead_lt
    have := sort.ahead_lt
    have := newline.ahead_lt
    rw [TokenStream.ahead_numbered]
    omega
  | declareInit word title sort sign init newline =>
    have := word.ahead_lt
    have := title.ahead_lt
    have := sort.ahead_lt
    have := sign.ahead_lt
    have := init.ahead_le
    have := newline.ahead_lt
    rw [TokenStream.ahead_numbered]
    omega
  | assign title sign value newline =>
    have := title.ahead_lt
    have := sign.ahead_lt
    have := value.ahead_le
    have := newline.ahead_lt
    rw [TokenStream.ahead_numbered] at *
    omega
  | loop word condition _ newline ih | branch word condition _ newline ih =>
    have := word.ahead_lt
    have := condition.ahead_le
    have := newline.ahead_lt
    rw [TokenStream.ahead_numbered]
    omega
  | branchElse word condition _ other _ newline ih ih' =>
    have := word.ahead_lt
    have := condition.ahead_le
    have := other.ahead_lt
    have := newline.ahead_lt
    rw [TokenStream.ahead_numbered]
    omega
  | blank newline => exact newline.ahead_lt
  | formLine _ newline ih => exact Nat.lt_trans newline.ahead_lt ih
  | formBare _ _ ih => exact ih
  | form word title left _ ih =>
    exact Nat.lt_trans ih (Nat.lt_trans left.ahead_lt (Nat.lt_trans title.ahead_lt word.ahead_lt))
  | formClose skip right => exact Nat.lt_of_lt_of_le right.ahead_lt skip.ahead_le
  | formField skip first _ ih =>
    exact Nat.lt_trans ih (Nat.lt_of_lt_of_le first.ahead_lt skip.ahead_le)
  | formBlock skip word condition _ _ _ ih ih' =>
    have := skip.ahead_le
    have := word.ahead_lt
    have := condition.ahead_le
    rw [TokenStream.ahead_numbered] at ih'
    omega

section
variable {s s₁ s₂ s₃ s₄ s₅ s₆ : TokenStream} {d d' d'' : Nat} {e body negative : Node}
  {name : String}
  {type : Ty}

/-- The run of a line that prints gives what is read, where the levels suffice. -/
theorem printWithin_yields (word : s.Takes (.keyword .print) s₁)
    (left : s₁.Takes (.mark .openParen) s₂) (expr : ReadsExpression (.tiers Tier.all) d s₂ e s₃)
    (right : s₃.Takes (.mark .closeParen) s₄) (newline : s₄.Takes .newline s₅) (levels : Nat) :
    Yields (printWithin levels s) (d ≤ levels) (.print (s₅.originAt s.current.line) e)
      s₅.numbered := by
  rw [printWithin, peek_bind, bind_of_ok (expectKeyword_of_takes word),
    bind_of_ok (expectMark_of_takes left)]
  refine .followed (expr.yields levels) ?_
  rw [bind_of_ok (expectMark_of_takes right), bind_of_ok (expectNewline_of_takes newline)]
  rfl

/-- The run of a declaration without a start value gives what is read. -/
theorem declarationWithin_run (word : s.Takes (.keyword .declare) s₁)
    (title : s₁.Takes (.identifier name) s₂) (sort : s₂.Takes (.typeName type) s₃)
    (newline : s₃.Takes .newline s₄) (levels : Nat) :
    declarationWithin levels s =
      .ok (.declare (s₄.originAt s.current.line) name type none) s₄.numbered := by
  have hinit : initWithin levels s₃ = .ok none s₃ := by
    rw [initWithin, bind_of_ok (eat_of_ne (by simp [newline.1]))]
    rfl
  rw [declarationWithin, peek_bind, bind_of_ok (expectKeyword_of_takes word),
    bind_of_ok (expectIdentifier_of_takes title), peek_bind, sort.1]
  simp only [bind_of_ok (advance_of_takes sort), bind_of_ok hinit,
    bind_of_ok (expectNewline_of_takes newline), fresh_bind, pure_run]

/-- The run of a declaration with a start value gives what is read, where the levels suffice. -/
theorem declarationWithin_yields (word : s.Takes (.keyword .declare) s₁)
    (title : s₁.Takes (.identifier name) s₂) (sort : s₂.Takes (.typeName type) s₃)
    (sign : s₃.Takes (.mark .assign) s₄) (init : ReadsExpression (.tiers Tier.all) d s₄ e s₅)
    (newline : s₅.Takes .newline s₆) (levels : Nat) :
    Yields (declarationWithin levels s) (d ≤ levels)
      (.declare (s₆.originAt s.current.line) name type (some e)) s₆.numbered := by
  have hinit : Yields (initWithin levels s₃) (d ≤ levels) (some e) s₅ := by
    rw [initWithin, bind_of_ok (eat_of_takes sign)]
    exact .followed (init.yields levels) rfl
  rw [declarationWithin, peek_bind, bind_of_ok (expectKeyword_of_takes word),
    bind_of_ok (expectIdentifier_of_takes title), peek_bind, sort.1]
  simp only [bind_of_ok (advance_of_takes sort)]
  refine .followed hinit ?_
  rw [bind_of_ok (expectNewline_of_takes newline)]
  rfl

/-- The run of an assignment gives what is read, where the levels suffice. -/
theorem assignmentWithin_yields (title : s.Takes (.identifier name) s₁)
    (sign : s₁.numbered.Takes (.mark .assign) s₂)
    (value : ReadsExpression (.tiers Tier.all) d s₂ e s₃) (newline : s₃.Takes .newline s₄)
    (levels : Nat) :
    Yields (assignmentWithin levels s) (d ≤ levels)
      (.assign (s₄.originAt s.current.line) (.ident (s₁.originAt s.current.line) name) e)
      s₄.numbered := by
  rw [assignmentWithin, peek_bind, bind_of_ok (expectIdentifier_of_takes title), fresh_bind,
    bind_of_ok (expectMark_of_takes sign)]
  refine .followed (value.yields levels) ?_
  rw [bind_of_ok (expectNewline_of_takes newline)]
  rfl

variable {block : String → Parse Node} {levels : Nat}

/-- The run of a loop gives what is read, where the levels suffice for its condition and its
block. -/
theorem loopWithin_yields (word : s.Takes (.keyword .loop) s₁)
    (condition : ReadsExpression (.tiers Tier.all) d s₁ e s₂)
    (read : ∀ construct, Yields (block construct s₂) (d' ≤ levels) body s₃)
    (newline : s₃.Takes .newline s₄) :
    Yields (loopWithin levels block s) (max d d' ≤ levels)
      (.loop (s₄.originAt s.current.line) e body) s₄.numbered := by
  rw [loopWithin, peek_bind, bind_of_ok (expectKeyword_of_takes word)]
  refine .congr (.bind (condition.yields levels) (.followed (read _) ?_)) Nat.max_le.symm
  rw [bind_of_ok (expectNewline_of_takes newline)]
  rfl

/-- The run of a branch without another one gives what is read, where the levels suffice. -/
theorem branchWithin_yields (word : s.Takes (.keyword .branch) s₁)
    (condition : ReadsExpression (.tiers Tier.all) d s₁ e s₂)
    (read : ∀ construct, Yields (block construct s₂) (d' ≤ levels) body s₃)
    (newline : s₃.Takes .newline s₄) :
    Yields (branchWithin levels block s) (max d d' ≤ levels)
      (.branch (s₄.originAt s.current.line) e body none) s₄.numbered := by
  have hother : otherwise? block s₃ = .ok none s₃ := by
    rw [otherwise?, bind_of_ok (eat_of_ne (by simp [newline.1]))]
    rfl
  rw [branchWithin, peek_bind, bind_of_ok (expectKeyword_of_takes word)]
  refine .congr (.bind (condition.yields levels) (.followed (read _) ?_)) Nat.max_le.symm
  rw [bind_of_ok hother, bind_of_ok (expectNewline_of_takes newline)]
  rfl

/-- The run of a branch with another one gives what is read, where the levels suffice for both. -/
theorem branchElseWithin_yields (word : s.Takes (.keyword .branch) s₁)
    (condition : ReadsExpression (.tiers Tier.all) d s₁ e s₂)
    (read : ∀ construct, Yields (block construct s₂) (d' ≤ levels) body s₃)
    (other : s₃.Takes (.keyword .otherwise) s₄)
    (read' : ∀ construct, Yields (block construct s₄) (d'' ≤ levels) negative s₅)
    (newline : s₅.Takes .newline s₆) :
    Yields (branchWithin levels block s) (max d (max d' d'') ≤ levels)
      (.branch (s₆.originAt s.current.line) e body (some negative)) s₆.numbered := by
  have hother : Yields (otherwise? block s₃) (d'' ≤ levels) (some negative) s₅ := by
    rw [otherwise?, bind_of_ok (eat_of_takes other)]
    exact .followed (read' _) rfl
  rw [branchWithin, peek_bind, bind_of_ok (expectKeyword_of_takes word)]
  refine .congr (.bind (condition.yields levels) (.bind (read _) (.followed hother ?_))) ?_
  · rw [bind_of_ok (expectNewline_of_takes newline)]
    rfl
  · rw [Nat.max_le, Nat.max_le]

/-- A field is a line of a block. -/
theorem blockItem?_of_field {construct : String} (first : ReadsField s e s₁) :
    blockItem? levels block construct s = .ok (some e) s₁ := by
  obtain ⟨kind, htoken⟩ := first.first_token
  rw [blockItem?, bind_of_ok (eat_of_ne (by simp [htoken])), if_neg (by simp), check_bind,
    if_neg (by simp [htoken]), peek_bind, if_pos (by simp [htoken, Token.isFieldKind])]
  exact bind_of_ok first.run

/-- A statement is a line of a block if it starts neither like a field nor like the end of a
block. -/
theorem blockItem?_yields {construct : String} (hclose : s.current.token ≠ .mark .closeBrace)
    (hend : s.current.token ≠ .endOfInput) (hfield : s.current.token.isFieldKind = false)
    (first : Yields (statementWithin levels block s) (d ≤ levels) e s₁) :
    Yields (blockItem? levels block construct s) (d ≤ levels) (some e) s₁ := by
  rw [blockItem?, bind_of_ok (eat_of_ne hclose), if_neg (by simp), check_bind,
    if_neg (by simp [hend]), peek_bind, if_neg (by simp [hfield])]
  exact .followed first rfl

/-- A form is a statement, with a line end behind it or not. -/
theorem formStatement_yields {taken : Bool} (word : s.current.token = .keyword .form)
    (first : Yields (formWithin levels block s) (d ≤ levels) e s₁)
    (newline : eat .newline s₁ = .ok taken s₂) :
    Yields (statementWithin levels block s) (d ≤ levels) e s₂ := by
  rw [statementWithin, peek_bind, word]
  exact .followed first (bind_of_ok newline)

/-- A field is a child of a form, behind line ends. -/
theorem formChild?_of_field (skip : s.Skips s₁) (first : ReadsField s₁ e s₂) :
    formChild? levels block s = .ok (some e) s₂ := by
  obtain ⟨kind, htoken⟩ := first.first_token
  rw [formChild?, bind_of_ok (skipNewlines_of_skips skip),
    bind_of_ok (eat_of_ne (by simp [htoken])), if_neg (by simp), peek_bind, htoken]
  exact bind_of_ok first.run

/-- The run of a block of a form gives what is read, where the levels suffice and the form admits
it. -/
theorem formChild?_yields {c : FormContainer} {origin : Origin} {ns : List Node} (skip : s.Skips s₁)
    (word : s₁.Takes (.keyword c.keyword) s₂)
    (condition : ReadsExpression (.tiers Tier.all) d s₂ e s₃)
    (read : ∀ construct, Yields (block construct s₃) (d' ≤ levels) (.block origin ns) s₄)
    (admitted : ∀ n ∈ ns, c.admits n = true) :
    Yields (formChild? levels block s) (max d d' ≤ levels)
      (some (c.toNode (s₄.originAt s₁.current.line) e (.block origin ns))) s₄.numbered := by
  rw [formChild?, bind_of_ok (skipNewlines_of_skips skip),
    bind_of_ok (eat_of_ne (by simp [word.1])), if_neg (by simp), peek_bind, word.1]
  cases c with
  | branch | loop =>
    simp only [FormContainer.keyword, bind_of_ok (advance_of_takes word)]
    refine .congr (.bind (condition.yields levels) (.followed (read _) ?_)) Nat.max_le.symm
    rw [bind_of_ok (checkFormBody_of_admitted admitted)]
    rfl

/-- The run of a form gives what is read, where the levels suffice for its children. -/
theorem formWithin_yields {ns : List Node} (word : s.Takes (.keyword .form) s₁)
    (title : s₁.Takes (.identifier name) s₂) (left : s₂.Takes (.mark .openBrace) s₃)
    (read : Yields (manyAlong "form declaration" (formChild? levels block) s₃.ahead s₃) (d ≤ levels)
      ns s₄) :
    Yields (formWithin levels block s) (d ≤ levels) (.form (s₄.originAt s.current.line) name ns)
      s₄.numbered := by
  rw [formWithin, peek_bind, bind_of_ok (expectKeyword_of_takes word),
    bind_of_ok (expectIdentifier_of_takes title), bind_of_ok (expectMark_of_takes left)]
  exact .followed read rfl

end

/-- A form starts with its keyword. -/
theorem ReadsBlock.form_token {d : Nat} {s s' : TokenStream} {ns : List Node}
    (h : ReadsBlock .form d s ns s') : s.current.token = .keyword .form := by
  cases h with
  | form word => exact word.1

/-- A statement starts neither like a field nor like the end of a block. -/
theorem ReadsBlock.first_token {d : Nat} {s s' : TokenStream} {ns : List Node}
    (h : ReadsBlock .statement d s ns s') :
    s.current.token ≠ .mark .closeBrace ∧ s.current.token ≠ .endOfInput ∧
      s.current.token.isFieldKind = false := by
  cases h with
  | print word | declare word | declareInit word | assign word | loop word | branch word
  | branchElse word | blank word => simp [word.1, Token.isFieldKind]
  | formLine read | formBare read => simp [read.form_token, Token.isFieldKind]

/-- What a run of a rule gives, with the given levels left, for a reading at depth `d`. -/
def BlockRule.Yields (levels : Nat) (r : BlockRule) (d : Nat) (s : TokenStream) (ns : List Node)
    (s' : TokenStream) : Prop :=
  match r with
  | .block =>
    ∀ construct n, ns = [n] → Parse.Yields (blockWithin levels construct s) (d ≤ levels) n s'
  | .items => ∀ construct along, s.ahead.length ≤ along.length →
    Parse.Yields (manyAlong construct (blockItem? levels (blockWithin levels) construct) along s)
      (d ≤ levels) ns s'
  | .statement => ∀ n, ns = [n] →
    Parse.Yields (statementWithin levels (blockWithin levels) s) (d ≤ levels) n s'
  | .form =>
    ∀ n, ns = [n] → Parse.Yields (formWithin levels (blockWithin levels) s) (d ≤ levels) n s'
  | .children => ∀ along, s.ahead.length ≤ along.length →
    Parse.Yields (manyAlong "form declaration" (formChild? levels (blockWithin levels)) along s)
      (d ≤ levels) ns s'

/-- A reading is what a run gives if it needs no more than the levels that are left; otherwise the
run fails for too deep nesting. -/
theorem ReadsBlock.yields {r : BlockRule} {d : Nat} {s s' : TokenStream} {ns : List Node}
    (h : ReadsBlock r d s ns s') (levels : Nat) : r.Yields levels d s ns s' := by
  induction h generalizing levels with
  | block left newline _ ih =>
    rintro construct n ⟨⟩
    cases levels with
    | zero => exact .tooDeep (Nat.not_succ_le_zero _)
    | succ levels =>
      rw [blockWithin, peek_bind, descend_bind, bind_of_ok (expectMark_of_takes left),
        bind_of_ok (expectNewline_of_takes newline)]
      refine .congr (.followed (ih levels construct _ (Nat.le_refl _)) ?_) Nat.succ_le_succ_iff.symm
      rfl
  | close right =>
    intro construct along _
    refine .of_ok (manyAlong_of_none ?_) (Nat.zero_le _)
    rw [blockItem?, bind_of_ok (eat_of_takes right)]
    rfl
  | field first _ ih =>
    intro construct along hle
    refine .congr (.manyAlong (.of_ok (blockItem?_of_field first) trivial) first.ahead_lt hle ?_)
      (and_iff_right trivial)
    exact ih levels construct
  | statement first _ ih ih' =>
    intro construct along hle
    obtain ⟨hclose, hend, hfield⟩ := first.first_token
    refine .congr (.manyAlong (blockItem?_yields hclose hend hfield (ih levels _ rfl))
      first.ahead_lt hle ?_) Nat.max_le.symm
    exact ih' levels construct
  | print word left expr right newline =>
    rintro n ⟨⟩
    rw [statementWithin, peek_bind, word.1]
    exact printWithin_yields word left expr right newline levels
  | declare word title sort newline =>
    rintro n ⟨⟩
    rw [statementWithin, peek_bind, word.1]
    exact .of_ok (declarationWithin_run word title sort newline levels) (Nat.zero_le _)
  | declareInit word title sort sign init newline =>
    rintro n ⟨⟩
    rw [statementWithin, peek_bind, word.1]
    exact declarationWithin_yields word title sort sign init newline levels
  | assign title sign value newline =>
    rintro n ⟨⟩
    rw [statementWithin, peek_bind, title.1]
    exact assignmentWithin_yields title sign value newline levels
  | loop word condition _ newline ih =>
    rintro n ⟨⟩
    rw [statementWithin, peek_bind, word.1]
    exact loopWithin_yields word condition (fun construct => ih levels construct _ rfl) newline
  | branch word condition _ newline ih =>
    rintro n ⟨⟩
    rw [statementWithin, peek_bind, word.1]
    exact branchWithin_yields word condition (fun construct => ih levels construct _ rfl) newline
  | branchElse word condition _ other _ newline ih ih' =>
    rintro n ⟨⟩
    rw [statementWithin, peek_bind, word.1]
    exact branchElseWithin_yields word condition (fun construct => ih levels construct _ rfl) other
      (fun construct => ih' levels construct _ rfl) newline
  | blank newline =>
    rintro n ⟨⟩
    refine .of_ok ?_ (Nat.zero_le _)
    rw [statementWithin, peek_bind, newline.1]
    exact bind_of_ok (advance_of_takes newline)
  | formLine read newline ih =>
    intro n hn
    exact formStatement_yields read.form_token (ih levels n hn) (eat_of_takes newline)
  | formBare read other ih =>
    intro n hn
    exact formStatement_yields read.form_token (ih levels n hn) (eat_of_ne other)
  | form word title left _ ih =>
    rintro n ⟨⟩
    exact formWithin_yields word title left (ih levels _ (Nat.le_refl _))
  | formClose skip right =>
    intro along _
    refine .of_ok (manyAlong_of_none ?_) (Nat.zero_le _)
    rw [formChild?, bind_of_ok (skipNewlines_of_skips skip), bind_of_ok (eat_of_takes right)]
    rfl
  | formField skip first _ ih =>
    intro along hle
    refine .congr (.manyAlong (.of_ok (formChild?_of_field skip first) trivial)
      (Nat.lt_of_lt_of_le first.ahead_lt skip.ahead_le) hle ?_) (and_iff_right trivial)
    exact ih levels
  | @formBlock s s₁ s₂ s₃ s₄ _ _ _ _ _ _ _ _ _ skip word condition read admitted _ ih ih' =>
    intro along hle
    have hlt : s₄.ahead.length < s.ahead.length := by
      have := skip.ahead_le
      have := word.ahead_lt
      have := condition.ahead_le
      have := read.ahead_lt
      omega
    refine .congr (.manyAlong (formChild?_yields skip word condition
      (fun construct => ih levels construct _ rfl) admitted) hlt hle ?_) Nat.max_le.symm
    exact ih' levels

end FormScript.Grammar
