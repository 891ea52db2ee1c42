import FormScript.Grammar.Expression
import FormScript.Proofs.Stream

/-!
# How expressions are read

`ReadsExpression r d s n s'` says that the rule `r` reads the expression `n` from the stream `s`,
leaves `s'` and opens at most `d` nested constructs at a time on its way. It has one constructor for
each branch that a rule can succeed by, with the numbers of nodes, the lines and the open levels as
they are in a run. `expression_sound` says that a successful run is such a reading,
`ReadsExpression.yields` that a reading is what a run gives if its depth is at most the levels that
are left, and that the run fails for too deep nesting otherwise. All that is said elsewhere of
parsed expressions follows from the relation, and the rules themselves are opened in this module
alone.
-/

namespace FormScript.Grammar

open Parse

/-- The tiers of a whole expression. -/
abbrev Tier.all : List Tier :=
  .or :: Tier.or.tighter

/-- A rule for expressions: a factor, an expression of the given tiers, or the operators of a tier
behind `left`. -/
inductive ExpressionRule where
  | factor
  | tiers (ts : List Tier)
  | chain (t : Tier) (left : Node)

/-- The parser of a rule. -/
def ExpressionRule.run (levels : Nat) : ExpressionRule → Parse Node
  | factor => Grammar.factor levels
  | tiers ts => layers (Grammar.factor levels) (Grammar.chain levels) ts
  | chain t left => Grammar.chain levels t left

/-- A rule reads an expression within a number of levels. -/
inductive ReadsExpression : ExpressionRule → Nat → TokenStream → Node → TokenStream → Prop where
  | int {s s₁ : TokenStream} {k : Int64} (take : s.Takes (.integer k) s₁) :
    ReadsExpression .factor 0 s (.int (s₁.originAt s.current.line) k) s₁.numbered
  | str {s s₁ : TokenStream} {content : String} (take : s.Takes (.text content) s₁) :
    ReadsExpression .factor 0 s (.str (s₁.originAt s.current.line) content) s₁.numbered
  | bool {s s₁ : TokenStream} {b : Bool} (take : s.Takes (.boolean b) s₁) :
    ReadsExpression .factor 0 s (.bool (s₁.originAt s.current.line) b) s₁.numbered
  | ident {s s₁ : TokenStream} {name : String} (take : s.Takes (.identifier name) s₁) :
    ReadsExpression .factor 0 s (.ident (s₁.originAt s.current.line) name) s₁.numbered
  | scan {s s₁ s₂ s₃ : TokenStream} (word : s.Takes (.keyword .scan) s₁)
      (left : s₁.Takes (.mark .openParen) s₂) (right : s₂.Takes (.mark .closeParen) s₃) :
    ReadsExpression .factor 0 s (.scan (s₃.originAt s.current.line)) s₃.numbered
  | parens {s s₁ s₂ s₃ : TokenStream} {n : Node} {d : Nat}
      (left : s.deeper.Takes (.mark .openParen) s₁)
      (inner : ReadsExpression (.tiers Tier.all) d s₁ n s₂)
      (right : s₂.Takes (.mark .closeParen) s₃) :
    ReadsExpression .factor (d + 1) s n s₃.shallower
  | prefixed {s s₁ s₂ : TokenStream} {n : Node} {d : Nat} {token : Token} {op : UnaryOp}
      (sign : prefixOperator? token = some op) (take : s.deeper.Takes token s₁)
      (operand : ReadsExpression .factor d s₁ n s₂) :
    ReadsExpression .factor (d + 1) s
      (.unary (s₂.shallower.originAt s.current.line) op n) s₂.shallower.numbered
  | atom {s s' : TokenStream} {n : Node} {d : Nat} (factor : ReadsExpression .factor d s n s') :
    ReadsExpression (.tiers []) d s n s'
  | tier {s s₁ s' : TokenStream} {first n : Node} {t : Tier} {ts : List Tier} {d d' : Nat}
      (operand : ReadsExpression (.tiers ts) d s first s₁)
      (operators : ReadsExpression (.chain t first) d' s₁ n s') :
    ReadsExpression (.tiers (t :: ts)) (max d d') s n s'
  | stop {s : TokenStream} {t : Tier} {left : Node} (other : t.operator? s.current.token = none) :
    ReadsExpression (.chain t left) 0 s left s
  | more {s s₁ s₂ s₃ : TokenStream} {t : Tier} {left right n : Node} {d d' : Nat} {token : Token}
      {op : BinaryOp} (sign : t.operator? token = some op) (take : s.deeper.Takes token s₁)
      (operand : ReadsExpression (.tiers t.tighter) d s₁ right s₂)
      (operators : ReadsExpression
        (.chain t (.binary (s₂.originAt s.current.line) op left right)) d' s₂.numbered n s₃) :
    ReadsExpression (.chain t left) (max d d' + 1) s n s₃.shallower

/-- Every successful run of a rule with the given levels is a reading within them. -/
def ExpressionRule.Sound (levels : Nat) (r : ExpressionRule) : Prop :=
  ∀ ⦃s : TokenStream⦄ ⦃n : Node⦄ ⦃s' : TokenStream⦄, s.Ended → r.run levels s = .ok n s' →
    s'.Ended ∧ ∃ d ≤ levels, ReadsExpression r d s n s'

/-- The tokens that stand for a prefix operator. -/
theorem prefixOperator?_cases {token : Token} {op : UnaryOp} (h : prefixOperator? token = some op) :
    token = .mark .plus ∧ op = .plus ∨ token = .mark .minus ∧ op = .minus ∨
      token = .mark .bang ∧ op = .not := by
  unfold prefixOperator? at h
  split at h <;> simp_all

/-- The end of input is no operator of any tier. -/
theorem Tier.operator?_ne_end {t : Tier} {token : Token} {op : BinaryOp}
    (h : t.operator? token = some op) : token ≠ .endOfInput := by
  rintro rfl
  cases t <;> cases h

/-- An expression of some tiers is read soundly if factors and chains are. -/
theorem layers_sound {levels : Nat} (hf : ExpressionRule.factor.Sound levels)
    (hc : ∀ t left, (ExpressionRule.chain t left).Sound levels) (ts : List Tier) :
    (ExpressionRule.tiers ts).Sound levels := by
  induction ts with
  | nil =>
    intro s n s' hs h
    obtain ⟨hs', d, hd, hread⟩ := hf hs h
    exact ⟨hs', d, hd, .atom hread⟩
  | cons t ts ih =>
    intro s n s' hs h
    obtain ⟨first, s₁, h₁, h⟩ := bind_ok h
    obtain ⟨hs₁, d, hd, hfirst⟩ := ih hs h₁
    obtain ⟨hs', d', hd', hrest⟩ := hc t first hs₁ h
    exact ⟨hs', max d d', Nat.max_le.2 ⟨hd, hd'⟩, .tier hfirst hrest⟩

/-- A literal or a name is a factor that opens no levels. -/
theorem atom_sound {s s' : TokenStream} {n : Node} (hs : s.Ended) (h : atom s = .ok n s') :
    s'.Ended ∧ ReadsExpression .factor 0 s n s' := by
  rw [atom, peek_bind] at h
  cases htoken : s.current.token with
  | integer k =>
    rw [htoken] at h
    obtain ⟨s₁, take, hs₁, h⟩ := advance_bind_ok hs htoken (by simp) h
    cases h
    exact ⟨hs₁, .int take⟩
  | text content =>
    rw [htoken] at h
    obtain ⟨s₁, take, hs₁, h⟩ := advance_bind_ok hs htoken (by simp) h
    cases h
    exact ⟨hs₁, .str take⟩
  | boolean b =>
    rw [htoken] at h
    obtain ⟨s₁, take, hs₁, h⟩ := advance_bind_ok hs htoken (by simp) h
    cases h
    exact ⟨hs₁, .bool take⟩
  | identifier name =>
    rw [htoken] at h
    obtain ⟨s₁, take, hs₁, h⟩ := advance_bind_ok hs htoken (by simp) h
    cases h
    exact ⟨hs₁, .ident take⟩
  | _ =>
    rw [htoken] at h
    rcases eat_bind_ok hs (by simp) h with ⟨s₁, word, hs₁, h⟩ | ⟨-, h⟩
    · obtain ⟨s₂, left, hs₂, h⟩ := expectMark_bind_ok hs₁ h
      obtain ⟨s₃, right, hs₃, h⟩ := expectMark_bind_ok hs₂ h
      cases h
      exact ⟨hs₃, .scan word left right⟩
    · exact absurd h unexpected_ne_ok

/-- A factor that opens nothing is read with any number of levels left, one that nests with one
level fewer inside. -/
theorem factor_sound {levels : Nat}
    (hf : ∀ inner, levels = inner + 1 → ExpressionRule.factor.Sound inner)
    (ht : ∀ inner, levels = inner + 1 → (ExpressionRule.tiers Tier.all).Sound inner) :
    ExpressionRule.factor.Sound levels := by
  intro s n s' hs h
  have hatom : atom s = .ok n s' → s'.Ended ∧ ∃ d ≤ levels, ReadsExpression .factor d s n s' := by
    intro h
    obtain ⟨hs', read⟩ := atom_sound hs h
    exact ⟨hs', 0, Nat.zero_le _, read⟩
  rw [ExpressionRule.run, factor.eq_def, peek_bind] at h
  cases htoken : s.current.token with
  | mark m =>
    rw [htoken] at h
    cases m with
    | openParen =>
      cases levels with
      | zero => exact absurd h tooDeep_ne_ok
      | succ inner =>
        obtain ⟨s₁, left, hs₁, h⟩ := advance_bind_ok (s := s.deeper) hs htoken (by simp) h
        obtain ⟨n', s₂, h₂, h⟩ := bind_ok h
        obtain ⟨hs₂, d, hd, hread⟩ := ht inner rfl hs₁ h₂
        obtain ⟨s₃, right, hs₃, h⟩ := expectMark_bind_ok hs₂ h
        cases h
        exact ⟨hs₃, d + 1, Nat.succ_le_succ hd, .parens left hread right⟩
    | plus | minus | bang =>
      cases levels with
      | zero => exact absurd h tooDeep_ne_ok
      | succ inner =>
        obtain ⟨s₁, take, hs₁, h⟩ := advance_bind_ok (s := s.deeper) hs htoken (by simp) h
        obtain ⟨n', s₂, h₂, h⟩ := bind_ok h
        obtain ⟨hs₂, d, hd, hread⟩ := hf inner rfl hs₁ h₂
        cases h
        exact ⟨hs₂, d + 1, Nat.succ_le_succ hd, .prefixed rfl take hread⟩
    | _ => exact hatom h
  | _ =>
    rw [htoken] at h
    exact hatom h

/-- The operators of a tier are read soundly if all they call is, one level deeper. -/
theorem chain_sound {levels : Nat} {t : Tier}
    (ht : ∀ inner, levels = inner + 1 → (ExpressionRule.tiers t.tighter).Sound inner)
    (hc : ∀ inner, levels = inner + 1 → ∀ left, (ExpressionRule.chain t left).Sound inner)
    (left : Node) : (ExpressionRule.chain t left).Sound levels := by
  intro s n s' hs h
  rw [ExpressionRule.run, chain.eq_def, peek_bind] at h
  cases hop : t.operator? s.current.token with
  | none =>
    rw [hop] at h
    cases h
    exact ⟨hs, 0, Nat.zero_le _, .stop hop⟩
  | some op =>
    rw [hop] at h
    cases levels with
    | zero => exact absurd h tooDeep_ne_ok
    | succ inner =>
      obtain ⟨s₁, take, hs₁, h⟩ :=
        advance_bind_ok (s := s.deeper) hs rfl (Tier.operator?_ne_end hop) h
      obtain ⟨right, s₂, h₂, h⟩ := bind_ok h
      obtain ⟨hs₂, d, hd, hright⟩ := ht inner rfl hs₁ h₂
      rw [fresh_bind] at h
      obtain ⟨whole, s₃, h₃, h⟩ := bind_ok h
      obtain ⟨hs₃, d', hd', hrest⟩ := hc inner rfl _ (TokenStream.ended_numbered.2 hs₂) h₃
      cases h
      exact ⟨hs₃, max d d' + 1, Nat.succ_le_succ (Nat.max_le.2 ⟨hd, hd'⟩),
        .more hop take hright hrest⟩

/-- A successful run of a rule for expressions is a reading within the levels that are left. -/
theorem expression_sound (levels : Nat) (r : ExpressionRule) : r.Sound levels := by
  induction levels generalizing r with
  | zero =>
    have hf : ExpressionRule.factor.Sound 0 :=
      factor_sound (fun _ h => nomatch h) (fun _ h => nomatch h)
    have hc : ∀ t left, (ExpressionRule.chain t left).Sound 0 := fun _ =>
      chain_sound (fun _ h => nomatch h) (fun _ h => nomatch h)
    cases r with
    | factor => exact hf
    | tiers ts => exact layers_sound hf hc ts
    | chain t left => exact hc t left
  | succ levels ih =>
    have hf : ExpressionRule.factor.Sound (levels + 1) :=
      factor_sound (fun _ h => Nat.succ.inj h ▸ ih _) (fun _ h => Nat.succ.inj h ▸ ih _)
    have hc : ∀ t left, (ExpressionRule.chain t left).Sound (levels + 1) := fun _ =>
      chain_sound (fun _ h => Nat.succ.inj h ▸ ih _) (fun _ h _ => Nat.succ.inj h ▸ ih _)
    cases r with
    | factor => exact hf
    | tiers ts => exact layers_sound hf hc ts
    | chain t left => exact hc t left

/-- A reading is what a run gives if it needs no more than the levels that are left; otherwise the
run fails for too deep nesting. -/
theorem ReadsExpression.yields {r : ExpressionRule} {d : Nat} {s s' : TokenStream} {n : Node}
    (h : ReadsExpression r d s n s') (levels : Nat) :
    Yields (r.run levels s) (d ≤ levels) n s' := by
  induction h generalizing levels with
  | int take | str take | bool take | ident take =>
    rw [ExpressionRule.run, factor.eq_def, peek_bind, take.1]
    change Yields (Grammar.atom _) _ _ _
    rw [Grammar.atom, peek_bind, take.1]
    exact .of_ok (bind_of_ok (advance_of_takes take)) (Nat.zero_le _)
  | scan word left right =>
    rw [ExpressionRule.run, factor.eq_def, peek_bind, word.1]
    change Yields (Grammar.atom _) _ _ _
    rw [Grammar.atom, peek_bind, word.1]
    simp only [bind_of_ok (eat_of_takes word), if_true, bind_of_ok (expectMark_of_takes left),
      bind_of_ok (expectMark_of_takes right)]
    exact .of_ok rfl (Nat.zero_le _)
  | @parens s s₁ s₂ s₃ n d left _ right ih =>
    rw [ExpressionRule.run, factor.eq_def, peek_bind, show s.current.token = _ from left.1]
    cases levels with
    | zero => exact .tooDeep (Nat.not_succ_le_zero _)
    | succ levels =>
      simp only [descend_bind, bind_of_ok (advance_of_takes left)]
      refine ((ih levels).followed ?_).congr Nat.succ_le_succ_iff.symm
      rw [bind_of_ok (expectMark_of_takes right)]
      rfl
  | @prefixed s s₁ s₂ n d token op sign take _ ih =>
    rcases prefixOperator?_cases sign with ⟨rfl, rfl⟩ | ⟨rfl, rfl⟩ | ⟨rfl, rfl⟩
    all_goals
      rw [ExpressionRule.run, factor.eq_def, peek_bind, show s.current.token = _ from take.1]
      cases levels with
      | zero => exact .tooDeep (Nat.not_succ_le_zero _)
      | succ levels =>
        simp only [prefixOperator?, descend_bind, bind_of_ok (advance_of_takes take)]
        refine ((ih levels).followed ?_).congr Nat.succ_le_succ_iff.symm
        rfl
  | atom _ ih => exact ih levels
  | tier _ _ ih ih' => exact ((ih levels).bind (ih' levels)).congr Nat.max_le.symm
  | @stop s t left other =>
    rw [ExpressionRule.run, chain.eq_def, peek_bind, other]
    exact .of_ok rfl (Nat.zero_le _)
  | @more s s₁ s₂ s₃ t left right n d d' token op sign take _ _ ih ih' =>
    rw [ExpressionRule.run, chain.eq_def, peek_bind, show s.current.token = _ from take.1, sign]
    cases levels with
    | zero => exact .tooDeep (Nat.not_succ_le_zero _)
    | succ levels =>
      simp only [descend_bind, bind_of_ok (advance_of_takes take)]
      have hrest : Yields ((do
          let whole ← chain levels t (.binary (s₂.originAt s.current.line) op left right)
          leave 1
          return whole) s₂.numbered) (d' ≤ levels) n s₃.shallower := (ih' levels).followed rfl
      refine ((ih levels).bind hrest).congr ?_
      rw [← Nat.max_le, Nat.succ_le_succ_iff]

/-- Reading an expression does not lengthen what lies ahead. -/
theorem ReadsExpression.ahead_le {r : ExpressionRule} {d : Nat} {s s' : TokenStream} {n : Node}
    (h : ReadsExpression r d s n s') : s'.ahead.length ≤ s.ahead.length := by
  induction h with
  | int take | str take | bool take | ident take => exact Nat.le_of_lt take.ahead_lt
  | scan word left right =>
    exact Nat.le_of_lt (Nat.lt_trans right.ahead_lt (Nat.lt_trans left.ahead_lt word.ahead_lt))
  | parens left _ right ih =>
    exact Nat.le_of_lt (Nat.lt_trans (Nat.lt_of_lt_of_le right.ahead_lt ih) left.ahead_lt)
  | prefixed _ take _ ih => exact Nat.le_of_lt (Nat.lt_of_le_of_lt ih take.ahead_lt)
  | atom _ ih => exact ih
  | tier _ _ ih ih' => exact Nat.le_trans ih' ih
  | stop => exact Nat.le_refl _
  | more _ take _ _ ih ih' =>
    exact Nat.le_of_lt (Nat.lt_of_le_of_lt (Nat.le_trans ih' ih) take.ahead_lt)

end FormScript.Grammar
