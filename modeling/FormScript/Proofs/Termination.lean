import FormScript.Proofs.Calling
import FormScript.Proofs.Comments

/-!
# Parsing ends

A rule calls others with fewer tokens ahead, or with as many and a lower `Rule.rank`, and it calls
all of them from one level (`Rule.inside`). That this is all it depends on is said with the calls
left open: if `call` gives what the rules give wherever a call is `Below` that of `r` at `s` and at
the level that `r` opens there, the body of `r` gives at `s` what the rule gives, whatever `call`
does elsewhere (`Rule.body_eq_run`). So the calls that nest are bounded by the tokens ahead
(`Rule.nested_eq_run`), and parsing ends on every text with the tree or the error of `parse`
(`parsing_ends`).
-/

namespace FormScript.Grammar

open Parse
open TokenStream (Advances)

/-! ## Calls -/

namespace Rule

/-- The place of a rule among those that can be called at one and the same token: a rule calls rules
of lower rank before it has taken one. -/
def rank : Rule → Nat
  | .expression (.tiers ts) => ts.length + 1
  | .expression _ => 0
  | .lineEnds | .value | .field | .print | .declaration | .assignment | .loop | .branch | .form
  | .block _ => 0
  | .arrayItems | .properties _ | .children | .statement => 1
  | .lines _ => 2
  | .program => 1

/-- The rules that a rule can call are of a lower rank than this. -/
def ranks : Nat := 7

/-- A call of `r'` at `s'` is below one of `r` at `s`: it has fewer tokens ahead, or as many and a
lower rank. -/
def Below (r' : Rule) (s' : TokenStream) (r : Rule) (s : TokenStream) : Prop :=
  s'.ahead.length < s.ahead.length ∧ r'.rank < ranks ∨
    s'.ahead.length = s.ahead.length ∧ r'.rank < r.rank

/-- How many levels a rule opens before it calls others: factors that call others stand in
parentheses or behind a sign, and what a chain calls stands behind an operator. -/
def opens : Rule → Nat
  | .expression .factor | .expression (.chain _ _) | .block _ => 1
  | _ => 0

/-- A stream at the level from which a rule calls others. -/
def inside (r : Rule) (s : TokenStream) : TokenStream :=
  { s with depth := s.depth + r.opens }

/-- All calls below that of `r` at `s` and at the level of `s` give what the rules give. -/
def Answers (call : (r : Rule) → Parse r.Result) (r : Rule) (s : TokenStream) : Prop :=
  ∀ r' s', s'.Ended → Below r' s' r s → s'.depth = s.depth → call r' s' = r'.run s'

section
variable {call : (r : Rule) → Parse r.Result} {r : Rule} {s s' : TokenStream} {k : Nat}

/-- Rules of lower rank can be called at once. -/
theorem Answers.here (h : Answers call r s) (hs : s.Ended) {r' : Rule} (hrank : r'.rank < r.rank) :
    call r' s = r'.run s :=
  h r' s hs (.inr ⟨rfl, hrank⟩) rfl

/-- Rules of lower rank can still be called after some steps. -/
theorem Answers.lower (h : Answers call r s) (hadvance : Advances k s s') {r' : Rule}
    (hrank : r'.rank < r.rank) (hbound : decide (r'.rank < ranks)) : call r' s' = r'.run s' := by
  refine h r' s' hadvance.ended ?_ hadvance.depth_eq
  have := hadvance.ahead_le
  by_cases hlt : s'.ahead.length < s.ahead.length
  · exact .inl ⟨hlt, of_decide_eq_true hbound⟩
  · exact .inr ⟨by omega, hrank⟩

/-- Behind a token every rule can be called. -/
theorem Answers.behind (h : Answers call r s) (hadvance : Advances (k + 1) s s') (r' : Rule)
    (hbound : decide (r'.rank < ranks)) : call r' s' = r'.run s' := by
  refine h r' s' hadvance.ended (.inl ⟨?_, of_decide_eq_true hbound⟩) hadvance.depth_eq
  have := hadvance.ahead_le
  omega

/-- A call for an expression behind a token is answered as the rule would. -/
theorem Answers.expression (h : Answers call r s) (hadvance : Advances (k + 1) s s') {levels : Nat}
    (hl : maxDepth - s.depth = levels) (r' : ExpressionRule)
    (hbound : decide ((expression r').rank < ranks)) :
    call (.expression r') s' = r'.run levels s' := by
  rw [h.behind hadvance _ hbound, ← hl, ← hadvance.depth_eq]
  rfl

/-- A call for a whole expression behind a token is answered as the rule would. -/
theorem Answers.whole (h : Answers call r s) (hadvance : Advances (k + 1) s s') :
    call .whole s' = expressionWithin (maxDepth - s.depth) s' :=
  h.expression hadvance rfl (.tiers Tier.all) rfl

/-- A call for a block behind a token is answered as the rule would. -/
theorem Answers.block (h : Answers call r s) (hadvance : Advances (k + 1) s s')
    (construct : String) :
    call (.block construct) s' = blockWithin (maxDepth - s.depth) construct s' := by
  rw [h.behind hadvance (.block construct) rfl, ← hadvance.depth_eq]
  rfl

/-- A call for the children of a form behind a token is answered as the rule would. -/
theorem Answers.children (h : Answers call r s) (hadvance : Advances (k + 1) s s') :
    call .children s' =
    many "form declaration" (formChild? (maxDepth - s.depth) (blockWithin (maxDepth - s.depth)))
      s' := by
  rw [h.behind hadvance .children rfl, ← hadvance.depth_eq]
  rfl

/-- A call for the lines of a block behind a token is answered as the rule would. -/
theorem Answers.lines (h : Answers call r s) (hadvance : Advances (k + 1) s s') {levels : Nat}
    (hl : maxDepth - s.depth = levels) (construct : String) :
    call (.lines construct) s' =
      many construct (blockItem? levels (blockWithin levels) construct) s' := by
  rw [h.behind hadvance (.lines construct) rfl, ← hl, ← hadvance.depth_eq]
  rfl

end

end Rule

/-! ## Bodies and rules

A body and its rule go through the same steps. At each call the tokens taken so far are known, so
the call is below and gives what the rule gives.
-/

open Rule (Answers)

section
variable {call : (r : Rule) → Parse r.Result} {s : TokenStream}

/-- The body of the rule for tiers does what the rule does, if its calls are answered so. -/
theorem tiers_body (ts : List Tier) (hs : s.Ended) (h : Answers call (.expression (.tiers ts)) s) :
    Calling.tiers call ts s = (Rule.expression (.tiers ts)).run s := by
  cases ts with
  | nil => exact h.here hs (Nat.succ_pos _)
  | cons t ts =>
    refine bind_congr_at (h.here hs (Nat.lt_succ_self _)) fun first s₁ h₁ => ?_
    exact h.expression (ExpressionRule.run_advances (.tiers ts) hs h₁) rfl (.chain t first) rfl

/-- The body of the rule for chains does what the rule does, if its calls are answered so. -/
theorem chain_body (t : Tier) (left : Node) (hs : s.Ended)
    (h : Answers call (.expression (.chain t left)) s.deeper) :
    Calling.chain call t left s = (Rule.expression (.chain t left)).run s := by
  show _ = Grammar.chain (maxDepth - s.depth) t left s
  rw [Grammar.chain.eq_def]
  refine peek_congr ?_
  cases hop : t.operator? s.current.token with
  | none => rfl
  | some op =>
    cases hl : maxDepth - s.depth with
    | zero => exact enter_bind_deepest hl
    | succ levels =>
      have hl' : maxDepth - s.deeper.depth = levels := by rw [TokenStream.depth_deeper]; omega
      refine (enter_bind_within hl).trans (.trans ?_ descend_bind.symm)
      refine bind_congr_at rfl fun _ s₁ h₁ => ?_
      have hadvance : Advances 1 s.deeper s₁ := advance_advances hs (Tier.operator?_ne_end hop) h₁
      refine bind_congr_at (h.expression hadvance hl' (.tiers _) (by cases t <;> rfl))
        fun right s₂ h₂ => ?_
      have hadvance := hadvance.past fun hs => ExpressionRule.run_advances (.tiers _) hs h₂
      rw [fresh_bind, fresh_bind]
      exact bind_congr_at (h.expression hadvance.numbered hl' (.chain t _) rfl) fun _ _ _ => rfl

/-- The body of the rule for factors does what the rule does, if its calls are answered so. -/
theorem factor_body (hs : s.Ended) (h : Answers call (.expression .factor) s.deeper) :
    Calling.factor call s = (Rule.expression .factor).run s := by
  show _ = Grammar.factor (maxDepth - s.depth) s
  rw [Grammar.factor.eq_def]
  refine peek_congr ?_
  cases htoken : s.current.token with
  | mark m =>
    cases m with
    | openParen =>
      cases hl : maxDepth - s.depth with
      | zero => exact enter_bind_deepest hl
      | succ levels =>
        have hl' : maxDepth - s.deeper.depth = levels := by rw [TokenStream.depth_deeper]; omega
        refine (enter_bind_within hl).trans (.trans ?_ descend_bind.symm)
        refine bind_congr_at rfl fun _ s₁ h₁ => ?_
        have hadvance : Advances 1 s.deeper s₁ := advance_advances hs (by simp [htoken]) h₁
        exact bind_congr_at (h.expression hadvance hl' (.tiers _) rfl) fun _ _ _ => rfl
    | plus | minus | bang =>
      cases hl : maxDepth - s.depth with
      | zero => exact enter_bind_deepest hl
      | succ levels =>
        have hl' : maxDepth - s.deeper.depth = levels := by rw [TokenStream.depth_deeper]; omega
        refine (enter_bind_within hl).trans (.trans ?_ descend_bind.symm)
        refine bind_congr_at rfl fun _ s₁ h₁ => ?_
        have hadvance : Advances 1 s.deeper s₁ := advance_advances hs (by simp [htoken]) h₁
        exact bind_congr_at (h.expression hadvance hl' .factor rfl) fun _ _ _ => rfl
    | _ => rfl
  | _ => rfl

/-- The body of the rule for line ends skips them, if its calls are answered so. -/
theorem lineEnds_body (hs : s.Ended) (h : Answers call .lineEnds s) :
    Calling.lineEnds call s = skipNewlines s := by
  by_cases hnewline : s.current.token = .newline
  · obtain ⟨reading, ahead, hahead⟩ :=
      List.exists_cons_of_ne_nil (hs.ahead_ne_nil (by simp [hnewline]))
    rw [Calling.lineEnds, skipNewlines, hahead]
    refine .trans ?_ (if_pos hnewline).symm
    cases reading with
    | ok lexeme =>
      have htake : s.Takes .newline { s with current := lexeme, ahead } :=
        ⟨hnewline, lexeme, ahead, hahead, rfl⟩
      rw [bind_of_ok (eat_of_takes htake)]
      exact (h.behind (htake.advances hs) .lineEnds rfl).trans (skipNewlinesFrom_update ..)
    | error e =>
      refine bind_of_error ?_
      rw [eat, check_bind, if_pos (decide_eq_true hnewline)]
      exact bind_of_error (by rw [advance, hahead])
  · rw [Calling.lineEnds, bind_of_ok (eat_of_ne hnewline), skipNewlines_of_skips (.done hnewline)]
    rfl

/-- The body of the rule for items does what the rule does, if its calls are answered so. -/
theorem arrayItems_body (hs : s.Ended) (h : Answers call .arrayItems s) :
    Calling.arrayItems call s = Rule.arrayItems.run s := by
  refine .trans ?_ (collect_many arrayItem?_advances hs)
  have hpass : Calling.arrayItem? call s = arrayItem? s := by
    refine bind_congr_at (h.here hs Nat.zero_lt_one) fun _ s₁ h₁ => ?_
    have hadvance := skipNewlines_advances hs h₁
    refine bind_congr_at rfl fun eaten s₂ h₂ => ?_
    cases eaten with
    | true => rfl
    | false =>
      have hadvance := hadvance.step fun hs => eat_advances hs (by simp) h₂
      refine bind_congr_at rfl fun item s₃ h₃ => ?_
      have hadvance := hadvance.step fun hs => (arrayItem_ok hs h₃).2.advances hs
      exact bind_congr_at (h.behind hadvance .lineEnds rfl) fun _ _ _ => rfl
  refine bind_congr_at hpass fun found s₁ h₁ => ?_
  cases found with
  | none => rfl
  | some item =>
    exact bind_congr_at (h.behind (arrayItem?_advances hs h₁) .arrayItems rfl) fun _ _ _ => rfl

/-- The body of the rule for values does what the rule does, if its calls are answered so. -/
theorem value_body (hs : s.Ended) (h : Answers call .value s) :
    Calling.value call s = propertyValue s := by
  refine peek_congr ?_
  cases htoken : s.current.token with
  | mark m =>
    cases m with
    | openBracket =>
      -- the bracket and the items are one step of `propertyValue`
      refine .trans ?_ (congrFun (bind_assoc (expectMark .openBracket "options array") _ _).symm s)
      refine bind_congr_at rfl fun _ s₁ h₁ => ?_
      exact bind_congr_at (h.behind (expectMark_advances hs h₁) .arrayItems rfl) fun _ _ _ => rfl
    | _ => rfl
  | _ => rfl

/-- The body of the rule for properties does what the rule does, if its calls are answered so. -/
theorem properties_body (before : List Node) (hs : s.Ended)
    (h : Answers call (.properties before) s) :
    Calling.properties call before s = (Rule.properties before).run s := by
  refine .trans ?_ (proceed_foldMany nextProperty?_advances before hs)
  have hpass : Calling.nextProperty? call before s = nextProperty? before s := by
    refine bind_congr_at (h.here hs Nat.zero_lt_one) fun _ s₁ h₁ => ?_
    have hadvance := skipNewlines_advances hs h₁
    refine bind_congr_at rfl fun eaten s₂ h₂ => ?_
    cases eaten with
    | true => rfl
    | false =>
      have hadvance := hadvance.step fun hs => eat_advances hs (by simp) h₂
      rw [if_neg (by simp), if_neg (by simp), peek_bind, peek_bind]
      refine bind_congr_at rfl fun key s₃ h₃ => ?_
      have hadvance := hadvance.step fun hs => expectIdentifier_advances hs h₃
      refine bind_congr_at rfl fun _ s₄ h₄ => ?_
      have hadvance := hadvance.past fun hs => expectMark_advances hs h₄
      exact bind_congr_at (h.behind hadvance .value rfl) fun _ _ _ => rfl
  refine bind_congr_at hpass fun found s₁ h₁ => ?_
  cases found with
  | none => rfl
  | some now => exact h.behind (nextProperty?_advances hs h₁) (.properties now) rfl

/-- The body of the rule for fields does what the rule does, if its calls are answered so. -/
theorem field_body (hs : s.Ended) (h : Answers call .field s) :
    Calling.field call s = fieldDeclaration s := by
  refine peek_congr ?_
  cases htoken : s.current.token with
  | fieldKind kind =>
    refine bind_congr_at rfl fun _ s₁ h₁ => ?_
    have hadvance := advance_advances hs (by simp [htoken]) h₁
    refine bind_congr_at rfl fun name s₂ h₂ => ?_
    have hadvance := hadvance.past fun hs => expectIdentifier_advances hs h₂
    refine bind_congr_at rfl fun _ s₃ h₃ => ?_
    have hadvance := hadvance.past fun hs => expectMark_advances hs h₃
    exact bind_congr_at (h.behind hadvance (.properties []) rfl) fun _ _ _ => rfl
  | _ => rfl

/-- The body of the rule for printing does what the rule does, if its calls are answered so. -/
theorem print_body (hs : s.Ended) (h : Answers call .print s) :
    Calling.print call s = printWithin (maxDepth - s.depth) s := by
  refine peek_congr ?_
  refine bind_congr_at rfl fun _ s₁ h₁ => ?_
  have hadvance := expectKeyword_advances hs h₁
  refine bind_congr_at rfl fun _ s₂ h₂ => ?_
  have hadvance := hadvance.past fun hs => expectMark_advances hs h₂
  exact bind_congr_at (h.whole hadvance) fun _ _ _ => rfl

/-- The body of the rule for declarations does what the rule does, if its calls are answered so. -/
theorem declaration_body (hs : s.Ended) (h : Answers call .declaration s) :
    Calling.declaration call s = declarationWithin (maxDepth - s.depth) s := by
  refine peek_congr ?_
  refine bind_congr_at rfl fun _ s₁ h₁ => ?_
  have hadvance := expectKeyword_advances hs h₁
  refine bind_congr_at rfl fun name s₂ h₂ => ?_
  have hadvance := hadvance.past fun hs => expectIdentifier_advances hs h₂
  rw [peek_bind, peek_bind]
  cases htoken : s₂.current.token with
  | typeName type =>
    refine bind_congr_at rfl fun _ s₃ h₃ => ?_
    have hadvance := hadvance.past fun hs => advance_advances hs (by simp [htoken]) h₃
    have hinit : Calling.init? call s₃ = initWithin (maxDepth - s.depth) s₃ := by
      refine bind_congr_at rfl fun eaten s₄ h₄ => ?_
      have hadvance := hadvance.past fun hs => eat_advances hs (by simp) h₄
      cases eaten with
      | true => exact bind_congr_at (h.whole hadvance) fun _ _ _ => rfl
      | false => rfl
    exact bind_congr_at hinit fun _ _ _ => rfl
  | _ => rfl

/-- The body of the rule for assignments does what the rule does, if its calls are answered so. -/
theorem assignment_body (hs : s.Ended) (h : Answers call .assignment s) :
    Calling.assignment call s = assignmentWithin (maxDepth - s.depth) s := by
  refine peek_congr ?_
  refine bind_congr_at rfl fun name s₁ h₁ => ?_
  have hadvance := expectIdentifier_advances hs h₁
  rw [fresh_bind, fresh_bind]
  refine bind_congr_at rfl fun _ s₂ h₂ => ?_
  have hadvance := hadvance.numbered.past fun hs => expectMark_advances hs h₂
  exact bind_congr_at (h.whole hadvance) fun _ _ _ => rfl

/-- The body of the rule for loops does what the rule does, if its calls are answered so. -/
theorem loop_body (hs : s.Ended) (h : Answers call .loop s) :
    Calling.loop call s = loopWithin (maxDepth - s.depth) (blockWithin (maxDepth - s.depth)) s := by
  refine peek_congr ?_
  refine bind_congr_at rfl fun _ s₁ h₁ => ?_
  have hadvance := expectKeyword_advances hs h₁
  refine bind_congr_at (h.whole hadvance) fun condition s₂ h₂ => ?_
  have hadvance := hadvance.past fun hs => ExpressionRule.run_advances (.tiers Tier.all) hs h₂
  exact bind_congr_at (h.block hadvance _) fun _ _ _ => rfl

/-- The body of the rule for branches does what the rule does, if its calls are answered so. -/
theorem branch_body (hs : s.Ended) (h : Answers call .branch s) :
    Calling.branch call s = branchWithin (maxDepth - s.depth)
      (blockWithin (maxDepth - s.depth)) s := by
  refine peek_congr ?_
  refine bind_congr_at rfl fun _ s₁ h₁ => ?_
  have hadvance := expectKeyword_advances hs h₁
  refine bind_congr_at (h.whole hadvance) fun condition s₂ h₂ => ?_
  have hadvance := hadvance.past fun hs => ExpressionRule.run_advances (.tiers Tier.all) hs h₂
  refine bind_congr_at (h.block hadvance _) fun positive s₃ h₃ => ?_
  have hadvance := hadvance.past fun hs => blockWithin_advances hs h₃
  have hnegative :
      Calling.otherwise? call s₃ = otherwise? (blockWithin (maxDepth - s.depth)) s₃ := by
    refine bind_congr_at rfl fun eaten s₄ h₄ => ?_
    have hadvance := hadvance.past fun hs => eat_advances hs (by simp) h₄
    cases eaten with
    | true => exact bind_congr_at (h.block hadvance _) fun _ _ _ => rfl
    | false => rfl
  exact bind_congr_at hnegative fun _ _ _ => rfl

/-- The body of the rule for a form's children does what the rule does, if its calls are answered
so. -/
theorem children_body (hs : s.Ended) (h : Answers call .children s) :
    Calling.children call s = Rule.children.run s := by
  refine .trans ?_ (collect_many formChild?_advances hs)
  have hpass : Calling.formChild? call s =
      formChild? (maxDepth - s.depth) (blockWithin (maxDepth - s.depth)) s := by
    refine bind_congr_at (h.here hs Nat.zero_lt_one) fun _ s₁ h₁ => ?_
    have hadvance := skipNewlines_advances hs h₁
    refine bind_congr_at rfl fun eaten s₂ h₂ => ?_
    cases eaten with
    | true => rfl
    | false =>
      have hadvance : Advances 0 s s₂ := hadvance.step fun hs => eat_advances hs (by simp) h₂
      rw [if_neg (by simp), if_neg (by simp), peek_bind, peek_bind]
      cases htoken : s₂.current.token with
      | keyword k =>
        cases k with
        | branch | loop =>
          refine bind_congr_at rfl fun _ s₃ h₃ => ?_
          have hadvance := hadvance.step fun hs => advance_advances hs (by simp [htoken]) h₃
          refine bind_congr_at (h.whole hadvance) fun condition s₄ h₄ => ?_
          have hadvance :=
            hadvance.past fun hs => ExpressionRule.run_advances (.tiers Tier.all) hs h₄
          exact bind_congr_at (h.block hadvance _) fun _ _ _ => rfl
        | _ => rfl
      | fieldKind kind =>
        exact bind_congr_at (h.lower hadvance Nat.zero_lt_one rfl) fun _ _ _ => rfl
      | _ => rfl
  refine bind_congr_at hpass fun found s₁ h₁ => ?_
  cases found with
  | none => rfl
  | some n =>
    exact bind_congr_at (h.children (formChild?_advances hs h₁)) fun _ _ _ => rfl

/-- The body of the rule for forms does what the rule does, if its calls are answered so. -/
theorem form_body (hs : s.Ended) (h : Answers call .form s) :
    Calling.form call s = formDeclaration s := by
  show _ = formWithin (maxDepth - s.depth) (blockWithin (maxDepth - s.depth)) s
  refine peek_congr ?_
  refine bind_congr_at rfl fun _ s₁ h₁ => ?_
  have hadvance := expectKeyword_advances hs h₁
  refine bind_congr_at rfl fun name s₂ h₂ => ?_
  have hadvance := hadvance.past fun hs => expectIdentifier_advances hs h₂
  refine bind_congr_at rfl fun _ s₃ h₃ => ?_
  have hadvance := hadvance.past fun hs => expectMark_advances hs h₃
  exact bind_congr_at (h.children hadvance) fun _ _ _ => rfl

/-- The body of the rule for statements does what the rule does, if its calls are answered so. -/
theorem statement_body (hs : s.Ended) (h : Answers call .statement s) :
    Calling.statement call s = statementWithin (maxDepth - s.depth)
      (blockWithin (maxDepth - s.depth)) s := by
  refine peek_congr ?_
  have hlower : ∀ {r : Rule}, r.rank = 0 → call r s = r.run s :=
    fun hr => h.here hs (hr ▸ Nat.zero_lt_one)
  cases s.current.token with
  | keyword k =>
    cases k with
    | form => exact bind_congr_at (hlower rfl) fun _ _ _ => rfl
    | print => exact hlower (r := .print) rfl
    | declare => exact hlower (r := .declaration) rfl
    | loop => exact hlower (r := .loop) rfl
    | branch => exact hlower (r := .branch) rfl
    | _ => rfl
  | identifier name => exact hlower (r := .assignment) rfl
  | _ => rfl

/-- The body of the rule for lines does what the rule does, if its calls are answered so. -/
theorem lines_body (construct : String) (hs : s.Ended) (h : Answers call (.lines construct) s) :
    Calling.lines call construct s = (Rule.lines construct).run s := by
  refine .trans ?_ (collect_many blockItem?_advances hs)
  have hpass : Calling.line? call construct s =
      blockItem? (maxDepth - s.depth) (blockWithin (maxDepth - s.depth)) construct s := by
    refine bind_congr_at rfl fun eaten s₁ h₁ => ?_
    cases eaten with
    | true => rfl
    | false =>
      have hadvance : Advances 0 s s₁ := eat_advances hs (by simp) h₁
      rw [if_neg (by simp), if_neg (by simp), check_bind, check_bind]
      by_cases hend : s₁.current.token = .endOfInput
      · rw [if_pos (decide_eq_true hend), if_pos (decide_eq_true hend)]
      rw [if_neg (by simpa using hend), if_neg (by simpa using hend), peek_bind, peek_bind]
      cases s₁.current.token.isFieldKind with
      | true => exact bind_congr_at (h.lower hadvance Nat.zero_lt_two rfl) fun _ _ _ => rfl
      | false =>
        have hstatement : call .statement s₁ =
            statementWithin (maxDepth - s.depth) (blockWithin (maxDepth - s.depth)) s₁ := by
          rw [← hadvance.depth_eq]
          exact h.lower hadvance (show Rule.statement.rank < 2 from Nat.one_lt_two) rfl
        exact bind_congr_at hstatement fun _ _ _ => rfl
  refine bind_congr_at hpass fun found s₁ h₁ => ?_
  cases found with
  | none => rfl
  | some n =>
    exact bind_congr_at (h.lines (blockItem?_advances hs h₁) rfl construct) fun _ _ _ => rfl

/-- The body of the rule for blocks does what the rule does, if its calls are answered so. -/
theorem block_body (construct : String) (hs : s.Ended)
    (h : Answers call (.block construct) s.deeper) :
    Calling.block call construct s = block construct s := by
  show _ = blockWithin (maxDepth - s.depth) construct s
  rw [Calling.block, peek_bind]
  cases hl : maxDepth - s.depth with
  | zero => exact enter_bind_deepest hl
  | succ levels =>
    have hl' : maxDepth - s.deeper.depth = levels := by rw [TokenStream.depth_deeper]; omega
    refine (enter_bind_within hl).trans ?_
    rw [blockWithin, peek_bind, descend_bind]
    refine bind_congr_at rfl fun _ s₁ h₁ => ?_
    have hadvance : Advances 1 s.deeper s₁ := expectMark_advances hs h₁
    refine bind_congr_at rfl fun _ s₂ h₂ => ?_
    have hadvance := hadvance.past fun hs => expectNewline_advances hs h₂
    exact bind_congr_at (h.lines hadvance hl' construct) fun _ _ _ => rfl

/-- The body of the rule for programs does what the rule does, if its calls are answered so. -/
theorem program_body (hs : s.Ended) (h : Answers call .program s) :
    Calling.program call s = program s := by
  refine bind_congr_at (h.here hs Nat.zero_lt_one) fun _ s₁ h₁ => ?_
  have hadvance : Advances 0 s s₁ := skipNewlines_advances hs h₁
  refine bind_congr_at (h.lower hadvance Nat.zero_lt_one rfl) fun root s₂ h₂ => ?_
  have hadvance := hadvance.step fun hs => blockWithin_advances hs h₂
  exact bind_congr_at (h.behind hadvance .lineEnds rfl) fun _ _ _ => rfl

/-- A rule is its body if the calls below, at the level that it opens, give what the rules give:
whatever the others would give. -/
theorem Rule.body_eq_run {r : Rule} (hs : s.Ended) (h : Answers call r (r.inside s)) :
    r.body call s = r.run s := by
  cases r with
  | expression r =>
    cases r with
    | factor => exact factor_body hs h
    | tiers ts => exact tiers_body ts hs h
    | chain t left => exact chain_body t left hs h
  | lineEnds => exact lineEnds_body hs h
  | arrayItems => exact arrayItems_body hs h
  | value => exact value_body hs h
  | properties before => exact properties_body before hs h
  | field => exact field_body hs h
  | print => exact print_body hs h
  | declaration => exact declaration_body hs h
  | assignment => exact assignment_body hs h
  | loop => exact loop_body hs h
  | branch => exact branch_body hs h
  | children => exact children_body hs h
  | form => exact form_body hs h
  | statement => exact statement_body hs h
  | lines construct => exact lines_body construct hs h
  | block construct => exact block_body construct hs h
  | program => exact program_body hs h

end

/-! ## Calls inside each other -/

namespace Rule

/-- The rules with at most `n` calls inside each other. Calls that would nest deeper go to `cut`. -/
def nested (cut : (r : Rule) → Parse r.Result) : Nat → (r : Rule) → Parse r.Result
  | 0 => cut
  | n + 1 => body (nested cut n)

/-- A call that is below another one has a smaller measure. -/
theorem Below.lt {r r' : Rule} {s s' : TokenStream} (h : Below r' s' r s) :
    s'.ahead.length * ranks + r'.rank < s.ahead.length * ranks + r.rank := by
  rcases h with ⟨hahead, hrank⟩ | ⟨hahead, hrank⟩
  · have := Nat.mul_le_mul_right ranks (Nat.succ_le_of_lt hahead)
    rw [Nat.succ_mul] at this
    omega
  · rw [hahead]
    omega

/-- A rule makes no more calls inside each other than the tokens ahead allow, so that it does not
matter what deeper calls would give. -/
theorem nested_eq_run (cut : (r : Rule) → Parse r.Result) {n : Nat} {r : Rule} {s : TokenStream}
    (hs : s.Ended) (hn : s.ahead.length * ranks + r.rank < n) : nested cut n r s = r.run s := by
  induction n generalizing r s with
  | zero => omega
  | succ n ih =>
    refine body_eq_run hs fun r' s' hs' hbelow _ => ih hs' ?_
    have : s'.ahead.length * ranks + r'.rank < s.ahead.length * ranks + r.rank := hbelow.lt
    omega

end Rule

end FormScript.Grammar

namespace FormScript

open Parse Grammar

/-- The tree of a program, by the given rule for programs. -/
def parseBy (rule : Parse Node) (source : String) : Except ParseError Node := do
  let stream ← TokenStream.ofText (Text.stripComments source)
  match rule stream with
  | .ok root _ => .ok root
  | .error e _ => .error e

/-- Another rule for programs gives the same tree if it does the same to the stream of the
source. -/
theorem parseBy_congr {rule : Parse Node} {source : String}
    (h : ∀ s, TokenStream.ofText (Text.stripComments source) = .ok s → rule s = program s) :
    parseBy rule source = parse source := by
  unfold parseBy parse
  cases hstream : TokenStream.ofText (Text.stripComments source) with
  | error e => rfl
  | ok s =>
    have hrule := h s hstream
    cases hprogram : program s with
    | ok root s' => simp only [bind, Except.bind, hrule, hprogram]
    | error e s' => simp only [bind, Except.bind, hrule, hprogram]

/-- Parsing ends, whatever the text.

A rule that succeeds takes a token, and so does every pass of a loop that goes on. A rule depends on
no call but those with fewer tokens ahead, or as many and a lower rank. So a number of calls inside
each other that grows with the length of the text is enough: the tree or the error is that of
`parse`, whatever deeper calls would do. -/
theorem parsing_ends :
    (∀ (r : Rule) (s s' : TokenStream) (a : r.Result), r.least = 1 → s.Ended → r.run s = .ok a s' →
      s.Consumes s') ∧
    (∀ (levels : Nat) (s s' : TokenStream), s.Ended →
      (∀ construct n, blockItem? levels (blockWithin levels) construct s = .ok (some n) s' →
        s.Consumes s') ∧
      (∀ n, formChild? levels (blockWithin levels) s = .ok (some n) s' → s.Consumes s') ∧
      (∀ before now, nextProperty? before s = .ok (some now) s' → s.Consumes s') ∧
      (∀ n, arrayItem? s = .ok (some n) s' → s.Consumes s') ∧
      (∀ t left n, chain levels t left s = .ok n s' → n = left ∧ s' = s ∨ s.Consumes s')) ∧
    (∀ (call : (r : Rule) → Parse r.Result) (r : Rule) (s : TokenStream), s.Ended →
      (∀ r' s', s'.Ended → r'.Below s' r s → call r' s' = r'.run s') → r.body call s = r.run s) ∧
    (∀ (cut : (r : Rule) → Parse r.Result) (source : String) (n : Nat),
      source.length * Rule.ranks + 1 < n →
      parseBy (Rule.nested cut n .program) source = parse source) := by
  refine ⟨?_, ?_, fun call r s hs h => Rule.body_eq_run hs fun r' s' hs' hbelow _ =>
    h r' s' hs' hbelow, ?_⟩
  · intro r s s' a hleast hs h
    have hadvance := Rule.run_advances hs h
    rw [hleast] at hadvance
    exact hadvance.consumes
  · intro levels s s' hs
    refine ⟨fun _ _ h => (blockItem?_advances hs h).consumes,
      fun _ h => (formChild?_advances hs h).consumes,
      fun _ _ h => (nextProperty?_advances hs h).consumes,
      fun _ h => (arrayItem?_advances hs h).consumes, ?_⟩
    intro t left n h
    exact (chain_advances hs h).imp_right fun hadvance => hadvance.consumes
  · intro cut source n hn
    refine parseBy_congr fun s hs => Rule.nested_eq_run cut (TokenStream.ended_of_ofText hs) ?_
    have hahead : s.ahead.length ≤ source.length :=
      calc s.ahead.length
        _ ≤ (Text.stripComments source).toList.length := TokenStream.length_ahead_le_of_ofText hs
        _ ≤ source.toList.length := (Text.stripComments_sublist source).length_le
        _ = source.length := String.length_toList
    exact Nat.lt_of_le_of_lt (Nat.add_le_add_right (Nat.mul_le_mul_right _ hahead) 1) hn

/-- The value of a property takes its token, an item of an array too, and a program that breaks off
inside an expression fails as it does with any greater number of calls. -/
theorem parsing_ends_truncated :
    (∃ s s' value, s.Ended ∧ Rule.value.run s = .ok value s' ∧ s.Consumes s' ∧
      Rule.body Rule.run .value s = .ok value s') ∧
    (∃ s s' n, s.Ended ∧ arrayItem? s = .ok (some n) s' ∧ s.Consumes s') ∧
    parseBy (Rule.nested (fun _ => unexpected "" "") 107 .program) "\x7b\nPrintln((1 +" =
      parse "\x7b\nPrintln((1 +" := by
  refine ⟨?_, ?_, parsing_ends.2.2.2 _ _ _ (by decide)⟩
  · have hended : TokenStream.Ended ⟨⟨.integer 7, 1, 0, 1⟩, [.ok ⟨.endOfInput, 1, 1, 1⟩], 0, 0⟩ :=
      ⟨[.ok ⟨.integer 7, 1, 0, 1⟩], _, rfl, rfl⟩
    exact ⟨_, _, .scalar (.int ⟨0, 1⟩ 7), hended, rfl, parsing_ends.1 .value _ _ _ rfl hended rfl,
      parsing_ends.2.2.1 Rule.run .value _ hended fun _ _ _ _ => rfl⟩
  · have hended : TokenStream.Ended
        ⟨⟨.identifier "a", 1, 0, 1⟩, [.ok ⟨.mark .closeBracket, 1, 1, 2⟩,
          .ok ⟨.endOfInput, 1, 2, 2⟩], 0, 0⟩ :=
      ⟨[.ok ⟨.identifier "a", 1, 0, 1⟩, .ok ⟨.mark .closeBracket, 1, 1, 2⟩], _, rfl, rfl⟩
    exact ⟨_, _, .ident ⟨0, 1⟩ "a", hended, rfl, (parsing_ends.2.1 0 _ _ hended).2.2.2.1 _ rfl⟩

end FormScript
