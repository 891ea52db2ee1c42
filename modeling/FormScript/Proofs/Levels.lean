import FormScript.Proofs.Consumption
import FormScript.Proofs.Equality
import FormScript.Proofs.Printing.RoundTrip
import FormScript.Proofs.Renumbering

/-!
# Levels balance

A rule opens a level before it calls others or none at all, and closes what it has opened before it
succeeds. So a rule that succeeds leaves the stream at the level at which it found it, and what a
rule calls, and what that calls in turn, stands as many levels deeper as there are openings around
it (`Rule.Encloses`). No level is ever deeper than `maxDepth`, also where a rule fails. What was
read before a construct therefore takes no part in whether the construct is too deep, unless it is a
part of the same construct: each operator of a chain opens a level for all that follows it in the
chain.
-/

namespace FormScript

open Grammar Parse

/-! ## What a rule calls -/

namespace Grammar.Rule

open Classical in
/-- The rules, with the call of `r'` at `s'` stopped. -/
noncomputable def runUntil (r' : Rule) (s' : TokenStream) (e : ParseError) (r : Rule) :
    Parse r.Result :=
  fun s => if r = r' ∧ s = s' then .error e s else r.run s

/-- While `r` reads from `s` it calls `r'` at `s'`: with that call stopped, it stops there
itself. -/
def Calls (r : Rule) (s : TokenStream) (r' : Rule) (s' : TokenStream) : Prop :=
  ∀ e, r.body (runUntil r' s' e) s = .error e s'

/-- While `r` reads from `s`, it comes to read `r'` from `s'` through calls of calls, inside of `k`
levels that these have opened. -/
inductive Encloses : Rule → TokenStream → Nat → Rule → TokenStream → Prop where
  | here (r : Rule) (s : TokenStream) : Encloses r s 0 r s
  | call {r r₁ r' : Rule} {s s₁ s' : TokenStream} {k : Nat} (calls : r.Calls s r₁ s₁)
      (inner : Encloses r₁ s₁ k r' s') :
    Encloses r s (r.opens + k) r' s'

end Grammar.Rule

/-! ## The deepest level -/

/-- No level is deeper than the deepest. -/
def Parse.Law.levels : Parse.Law where
  holds s := s.Ended ∧ s.depth ≤ maxDepth
  line _ := True
  fails _ s := s.Ended ∧ s.depth ≤ maxDepth
  line_of_holds _ := trivial
  taken hs take := by
    obtain ⟨-, ⟨-, rfl⟩ | ⟨following, ahead, -, rfl⟩⟩ := advance_cases take
    · exact hs
    · exact ⟨hs.1.taken take, hs.2⟩
  refused hs refuse := by
    obtain ⟨fault, ahead, -, -, rfl⟩ := advance_error refuse
    exact ⟨hs.1.refused refuse, hs.2⟩
  unfit hs _ := hs
  entered hs h := ⟨hs.1, h⟩
  left hs := ⟨hs.1, Nat.le_trans (Nat.sub_le _ _) hs.2⟩
  numbered hs := hs

namespace Grammar.Rule

variable {r r' : Rule} {s s' : TokenStream} {k : Nat}

/-- The rules never open a level too many, also where one call is stopped. -/
theorem runUntil_levels (r' : Rule) (s' : TokenStream) (e : ParseError) :
    Law.levels.Serves (runUntil r' s' e) := by
  intro r _ s hs
  unfold runUntil
  split
  · exact hs
  · exact Law.run_keeps (Law.ready_of_lines (fun _ => trivial) r) hs.1 hs

/-- What a rule calls, it calls at a level that is not too deep. -/
theorem Calls.levels (h : r.Calls s r' s') (hs : Law.levels.holds s) : Law.levels.holds s' := by
  let e := ParseError.grammar ⟨0, .unexpectedEnd ""⟩
  have hallows :=
    Law.body_keeps (runUntil_levels r' s' e) r (Law.ready_of_lines (fun _ => trivial) r) s hs
  rw [h e] at hallows
  exact hallows

/-! ## Openings -/

/-- A rule calls others from the level that it opens: it would take no notice of a call stopped
elsewhere. -/
theorem Calls.depth_eq (h : r.Calls s r' s') (hs : s.Ended) : s'.depth = s.depth + r.opens := by
  by_contra hne
  have hanswers : ∀ e, Answers (runUntil r' s' e) r (r.inside s) := by
    intro e r₁ s₁ _ _ hdepth
    refine if_neg fun hstop => hne ?_
    rw [← hstop.2, hdepth]
    rfl
  have hrun : ∀ e, r.run s = .error e s' := fun e => (body_eq_run hs (hanswers e)).symm.trans (h e)
  obtain ⟨hfault, -⟩ := EStateM.Result.error.inj
    ((hrun (.grammar ⟨0, .unexpectedEnd ""⟩)).symm.trans (hrun (.grammar ⟨1, .unexpectedEnd ""⟩)))
  cases hfault

/-- Calls of calls go one level deeper with each opening. -/
theorem Encloses.levels (h : Encloses r s k r' s') (hs : Law.levels.holds s) :
    s'.depth = s.depth + k ∧ Law.levels.holds s' := by
  induction h with
  | here r s => exact ⟨rfl, hs⟩
  | call calls inner ih =>
    obtain ⟨hdepth, hs'⟩ := ih (calls.levels hs)
    rw [calls.depth_eq hs.1] at hdepth
    exact ⟨by omega, hs'⟩

end Grammar.Rule

/-! ## What stands before -/

/-- A call that succeeds leaves no level open. -/
theorem Call.run_balanced {call : Call} {s s' : TokenStream} (hs : s.Ended)
    (h : call.run s = .ok () s') : s'.Ended ∧ s'.depth = s.depth := by
  have hrule : ∀ (r : Rule) {a : r.Result}, r.run s = .ok a s' → s'.Ended ∧ s'.depth = s.depth :=
    fun r _ h => ⟨(Rule.run_advances hs h).ended, (Rule.run_advances hs h).depth_eq⟩
  by_cases hsingle : call.single
  · rcases run_single hsingle s with ⟨-, hrun⟩ | ⟨-, hrun | ⟨g, hrun⟩⟩
    · have take := advance_run_ok (hrun.symm.trans h)
      refine ⟨hs.taken take, ?_⟩
      obtain ⟨-, ⟨-, rfl⟩ | ⟨following, ahead, -, rfl⟩⟩ := advance_cases take
      · rfl
      · rfl
    · rw [hrun] at h
      cases h
      exact ⟨hs, rfl⟩
    · rw [hrun] at h
      cases h
  · cases call with
    | skipNewlines => exact hrule .lineEnds h
    | rule r =>
      obtain ⟨a, s₁, hrun, h⟩ := bind_ok h
      cases h
      exact hrule r hrun
    | _ => exact absurd rfl hsingle

/-- A stream is reached from another through calls that succeed. -/
inductive TokenStream.Leads (s : TokenStream) : TokenStream → Prop where
  | refl : Leads s s
  | call {t t' : TokenStream} (before : Leads s t) (call : Call)
      (run : call.run t = .ok () t') : Leads s t'

/-- What was read leaves no level open. -/
theorem TokenStream.Leads.balanced {s t : TokenStream} (h : s.Leads t) (hs : s.Ended) :
    t.Ended ∧ t.depth = s.depth := by
  induction h with
  | refl => exact ⟨hs, rfl⟩
  | call _ call run ih =>
    obtain ⟨hended, hdepth⟩ := Call.run_balanced ih.1 run
    exact ⟨hended, hdepth.trans ih.2⟩

/-- Whether the nesting is too deep does not depend on the numbers of nodes. -/
theorem Parse.tooDeep_iff_of_seen {α β : Type} {view : α → β}
    {result result' : EStateM.Result ParseError TokenStream α}
    (h : seen view result = seen view result') : TooDeep result ↔ TooDeep result' := by
  have hmp : ∀ {result result' : EStateM.Result ParseError TokenStream α},
      seen view result = seen view result' → TooDeep result → TooDeep result' := by
    rintro _ result' h ⟨line, construct, s, rfl⟩
    cases result' with
    | ok a s' => cases h
    | error e s' =>
      obtain ⟨rfl, -⟩ := EStateM.Result.error.inj h
      exact ⟨line, construct, s', rfl⟩
  exact ⟨hmp h, hmp h.symm⟩

/-! ## Operands of the same chain -/

namespace Grammar

/-- A number of operands, with the operator behind each. -/
def operands (op : BinaryOp) : Nat → List Token
  | 0 => []
  | k + 1 => operands op k ++ [Token.integer 1, .mark op.mark]

/-- A program that prints a chain of operators, whose last operand stands behind `k` others. -/
def behindOperands (op : BinaryOp) (k : Nat) (w : List Token) : String :=
  spaced ([Token.mark .openBrace, .newline] ++
    ([Token.keyword .print, .mark .openParen] ++ (operands op k ++ w) ++
      [Token.mark .closeParen, .newline] ++ []) ++
    [Token.mark .closeBrace])

section
variable {op : BinaryOp} {k d : Nat} {n : Node} {w : List Token}

/-- An operand behind `k` operators stands `k` levels deeper than the first one. -/
theorem prints_behind_operands (h : PrintsExpression (.tiers (tierOf op).tighter) d n w)
    (hn : ∀ m ∈ n.walk, m.Spellable) :
    ∃ e, PrintsExpression (.chain (tierOf op) k) (k + d) e (operands op k ++ w) ∧
      ∀ m ∈ e.walk, m.Spellable := by
  induction k generalizing d n w with
  | zero => exact ⟨n, by simpa [operands] using PrintsExpression.first h, hn⟩
  | succ k ih =>
    have hone : PrintsExpression .factor 0 (.int default 1) [.integer 1] :=
      .literal (.int default 1)
    obtain ⟨e, prints, he⟩ := ih (hone.tiers_of_factor (tierOf op).layered_tighter)
      (by simp [Node.walk, Node.Spellable])
    have hmore := PrintsExpression.more default op prints h
    rw [Nat.max_eq_right (by omega)] at hmore
    refine ⟨.binary default op e n, by simpa [operands] using hmore, ?_⟩
    rw [Node.forall_walk]
    simpa [Node.children, Node.Spellable] using ⟨he, hn⟩

/-- A program with an operand behind `k` others is parsed where there are levels for all of them. -/
theorem parse_behindOperands (h : PrintsExpression (.tiers (tierOf op).tighter) d n w)
    (hn : ∀ m ∈ n.walk, m.Spellable) :
    (k + d + 1 ≤ maxDepth → ∃ root, parse (behindOperands op k w) = .ok root) ∧
    (maxDepth < k + d + 1 → ∃ line construct,
      parse (behindOperands op k w) =
        .error (.grammar ⟨line, .nestingTooDeep construct maxDepth⟩)) := by
  obtain ⟨e, prints, he⟩ := prints_behind_operands (k := k) h hn
  have hprints := PrintsBlock.block default (.line (.print default prints.all_of_chain) .noLine)
  obtain ⟨s, root, s', hstream, read, -⟩ := reads_spaced hprints (by
    rw [Node.forall_walk]
    simpa [Node.children, Node.walk, Node.Spellable] using he)
  rw [Nat.max_zero] at read
  exact ⟨fun hk => ⟨root, read.parse_eq hstream hk⟩, fun hk => read.parse_tooDeep hstream hk⟩

/-- Each operand of a chain counts one level for those that follow. -/
theorem parse_behindOperands_tooDeep_iff (h : PrintsExpression (.tiers (tierOf op).tighter) d n w)
    (hn : ∀ m ∈ n.walk, m.Spellable) :
    (∃ line construct,
      parse (behindOperands op k w) =
        .error (.grammar ⟨line, .nestingTooDeep construct maxDepth⟩)) ↔
      maxDepth < k + d + 1 := by
  obtain ⟨hfits, hdeep⟩ := parse_behindOperands (k := k) h hn
  refine ⟨?_, hdeep⟩
  rintro ⟨line, construct, herror⟩
  by_contra hle
  obtain ⟨root, hparse⟩ := hfits (by omega)
  cases hparse.symm.trans herror

/-- A number in parentheses. -/
theorem prints_pair (ts : List Tier) (hts : Tier.Layered ts) :
    PrintsExpression (.tiers ts) 1 (.int default 2)
    [.mark .openParen, .integer 2, .mark .closeParen] := by
  have htwo : PrintsExpression .factor 0 (.int default 2) [.integer 2] := .literal (.int default 2)
  exact (PrintsExpression.parens (htwo.tiers_of_factor (.inr ⟨.or, rfl⟩))).tiers_of_factor hts

end

end Grammar

/-! ## Levels balance -/

/-- Levels balance. A rule that succeeds leaves the stream at the level at which it found it. All
that happens while a rule reads, whether it succeeds or not, happens at levels up to the deepest,
which are as many levels deeper as there are openings around it. And a construct is too deep behind
whatever was read before it exactly if it is where nothing was. Only in a chain of operators do
operands count for what follows: as one level each. -/
theorem levels_balance {s : TokenStream} (hs : s.Ended) :
    (∀ (r : Rule) a s', r.run s = .ok a s' → s'.depth = s.depth) ∧
    (∀ r k r' s', s.depth ≤ maxDepth → Rule.Encloses r s k r' s' →
      s'.depth = s.depth + k ∧ s'.depth ≤ maxDepth ∧ ((Call.rule r').leaves s').depth ≤ maxDepth) ∧
    (∀ t, s.Leads t → ∀ r : Rule,
      TooDeep (r.run t) ↔ TooDeep (r.run { s with current := t.current, ahead := t.ahead })) ∧
    ∀ op k d n w, PrintsExpression (.tiers (tierOf op).tighter) d n w →
      (∀ m ∈ n.walk, m.Spellable) →
      ((∃ line construct,
        parse (behindOperands op k w) =
          .error (.grammar ⟨line, .nestingTooDeep construct maxDepth⟩)) ↔
        maxDepth < k + d + 1) := by
  refine ⟨fun r a s' h => (Rule.run_advances hs h).depth_eq,
    fun r k r' s' hdepth h => ?_, fun t h r => ?_,
    fun op k d n w h hn => parse_behindOperands_tooDeep_iff h hn⟩
  · obtain ⟨heq, hs'⟩ := h.levels ⟨hs, hdepth⟩
    exact ⟨heq, hs'.2, ((Call.rule r').leaves_holds (fun _ => trivial) And.left id hs').2⟩
  · obtain ⟨hended, hdepth⟩ := h.balanced hs
    refine tooDeep_iff_of_seen (r.run_unnumbered hended ?_)
    rw [TokenStream.unnumbered, hdepth, TokenStream.unnumbered]

/-- The stream over `(1)((2))`, one level above the deepest. -/
def Sample.pairs : TokenStream :=
  ⟨⟨.mark .openParen, 1, 0, 1⟩, [.ok ⟨.integer 1, 1, 1, 2⟩, .ok ⟨.mark .closeParen, 1, 2, 3⟩,
    .ok ⟨.mark .openParen, 1, 3, 4⟩, .ok ⟨.mark .openParen, 1, 4, 5⟩, .ok ⟨.integer 2, 1, 5, 6⟩,
    .ok ⟨.mark .closeParen, 1, 6, 7⟩, .ok ⟨.mark .closeParen, 1, 7, 8⟩, .ok ⟨.endOfInput, 1, 8, 8⟩],
    0, maxDepth - 1⟩

/-- The first factor fits, what stands in its parentheses is at the deepest level, and the second
factor is too deep. So is a factor in a program of its own, if it is the last one of a long
product. -/
theorem pairs_balance :
    ∃ s₁ t a, Sample.pairs.Ended ∧
    (Rule.expression .factor).run Sample.pairs = .ok a t ∧ t.depth = Sample.pairs.depth ∧
    Rule.Encloses (.expression .factor) Sample.pairs 1 .whole s₁ ∧
    (s₁.depth = Sample.pairs.depth + 1 ∧ s₁.depth ≤ maxDepth ∧
      ((Call.rule .whole).leaves s₁).depth ≤ maxDepth) ∧
    Sample.pairs.Leads t ∧ TooDeep ((Rule.expression .factor).run t) ∧
    TooDeep ((Rule.expression .factor).run
      { Sample.pairs with current := t.current, ahead := t.ahead }) ∧
    ∃ line construct,
      parse (behindOperands .mul 127 [.mark .openParen, .integer 2, .mark .closeParen]) =
        .error (.grammar ⟨line, .nestingTooDeep construct maxDepth⟩) := by
  have hended : Sample.pairs.Ended :=
    ⟨Sample.pairs.pending.dropLast, ⟨.endOfInput, 1, 8, 8⟩, rfl, rfl⟩
  let s₁ : TokenStream := { Sample.pairs with
    current := ⟨.integer 1, 1, 1, 2⟩
    ahead := Sample.pairs.ahead.tail
    depth := maxDepth }
  let t : TokenStream := { Sample.pairs with
    current := ⟨.mark .openParen, 1, 3, 4⟩
    ahead := Sample.pairs.ahead.drop 3
    nextId := 1 }
  have hrun : (Rule.expression .factor).run Sample.pairs = .ok (.int ⟨0, 1⟩ 1) t := by
    decide +kernel
  have hcalls : (Rule.expression .factor).Calls Sample.pairs .whole s₁ := by
    intro e
    have hcall : Rule.runUntil .whole s₁ e .whole s₁ = .error e s₁ := if_pos ⟨rfl, rfl⟩
    exact (bind_of_ok rfl).trans
      ((bind_of_ok rfl).trans ((bind_of_ok rfl).trans (bind_of_error hcall)))
  have hencloses : Rule.Encloses (.expression .factor) Sample.pairs 1 .whole s₁ :=
    .call hcalls (.here _ _)
  have hleads : Sample.pairs.Leads t := .call .refl (.rule (.expression .factor)) (bind_of_ok hrun)
  have hdeep : TooDeep ((Rule.expression .factor).run t) :=
    ⟨1, "parenthesized expression", { t with
      current := ⟨.mark .openParen, 1, 4, 5⟩
      ahead := Sample.pairs.ahead.drop 4
      depth := maxDepth }, by decide +kernel⟩
  have hpair := prints_pair (tierOf .mul).tighter (tierOf .mul).layered_tighter
  obtain ⟨hbalance, hlevels, hbefore, hchain⟩ := levels_balance hended
  exact ⟨s₁, t, _, hended, hrun, hbalance _ _ _ hrun, hencloses,
    hlevels _ _ _ _ (Nat.sub_le _ _) hencloses, hleads, hdeep, (hbefore t hleads _).1 hdeep,
    (hchain .mul 127 1 _ _ hpair (by simp [Node.walk, Node.Spellable])).2 (by decide)⟩

/-- Operands of the same chain do count: the parentheses fit where no operand stands before them,
and are too deep behind 127. -/
theorem operands_open_levels :
    behindOperands .add 1 [.mark .openParen, .integer 2, .mark .closeParen] =
      "\x7b \n Println ( 1 + ( 2 ) ) \n \x7d" ∧
    (∃ root,
      parse (behindOperands .add 0 [.mark .openParen, .integer 2, .mark .closeParen]) = .ok root) ∧
    ∃ line construct,
      parse (behindOperands .add 127 [.mark .openParen, .integer 2, .mark .closeParen]) =
        .error (.grammar ⟨line, .nestingTooDeep construct maxDepth⟩) := by
  have hpair := prints_pair (tierOf .add).tighter (tierOf .add).layered_tighter
  have hspellable : ∀ m ∈ (Node.int default 2).walk, m.Spellable := by
    simp [Node.walk, Node.Spellable]
  exact ⟨by decide +kernel, (parse_behindOperands hpair hspellable).1 (by decide),
    (parse_behindOperands hpair hspellable).2 (by decide)⟩

end FormScript
