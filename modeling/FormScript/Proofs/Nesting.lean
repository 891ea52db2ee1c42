import Mathlib.Order.Bounds.Defs
import Mathlib.Order.Monotone.Basic
import FormScript.Proofs.Equality
import FormScript.Proofs.Printing.RoundTrip

/-!
# How deep a parsed tree is

A path through a tree goes from the root to a leaf (`Node.IsPath`). The parser counts the constructs
that are open at a time and gives the levels of a chain of operators back when the chain ends, but
the tree of a chain leans to the left, so its first operand stands below all of its operators. Two
bounds follow for the blocks and operators on a path. Without the operators that the path leaves
through their left operand there are at most `maxDepth`, as many as there can be open levels
(`nestsWithin_of_parse`). Of all of them there can be many more: `factorBound d` is the most nesting
of a factor that is read at depth `d`, where a pair of parentheses spends one level and has five
chains inside, each as long as there are levels left. Both bounds are reached by texts that
`Layout.Reaches` describes.
-/

namespace FormScript

namespace Node

/-- Whether a node is one of those that nesting is made of. -/
def nests : Node → Bool
  | block _ _ | unary _ _ _ | binary _ _ _ _ => true
  | _ => false

/-- The parts of a node, each with whether it is the left operand of an infix operator. -/
def exits : Node → List (Node × Bool)
  | binary _ _ left right => [(left, true), (right, false)]
  | n => n.children.map (·, false)

/-- A path from a node down to a leaf. Each node on it comes with whether the path leaves it through
its left operand. -/
inductive IsPath : Node → List (Node × Bool) → Prop where
  | leaf {n : Node} (h : n.children = []) : IsPath n [(n, false)]
  | step {n part : Node} {left : Bool} {p : List (Node × Bool)} (h : (part, left) ∈ n.exits)
      (rest : IsPath part p) :
    IsPath n ((n, left) :: p)

/-- The number of blocks and operators on a path. -/
def nesting (p : List (Node × Bool)) : Nat :=
  p.countP fun step => step.1.nests

/-- The same without the operators that are left through their left operand. -/
def openNesting (p : List (Node × Bool)) : Nat :=
  p.countP fun step => step.1.nests && !step.2

@[simp] theorem nesting_cons (n : Node) (left : Bool) (p : List (Node × Bool)) :
    nesting ((n, left) :: p) = nesting p + if n.nests then 1 else 0 := by
  rw [nesting, List.countP_cons]
  rfl

@[simp] theorem openNesting_cons (n : Node) (left : Bool) (p : List (Node × Bool)) :
    openNesting ((n, left) :: p) = openNesting p + if n.nests && !left then 1 else 0 := by
  rw [openNesting, List.countP_cons]
  rfl

/-- Every path through a node has at most `k` blocks and operators, and at most `j` of them are not
left through a left operand. -/
def NestsWithin (n : Node) (j k : Nat) : Prop :=
  ∀ p, IsPath n p → openNesting p ≤ j ∧ nesting p ≤ k

section
variable {n : Node} {j k j' k' : Nat}

/-- Larger bounds hold as well. -/
theorem NestsWithin.mono (h : NestsWithin n j k) (hj : j ≤ j') (hk : k ≤ k') :
    NestsWithin n j' k' :=
  fun p hp => ⟨Nat.le_trans (h p hp).1 hj, Nat.le_trans (h p hp).2 hk⟩

/-- A node that is no block and no operator adds nothing to its parts. -/
theorem nestsWithin_of_parts (hn : n.nests = false)
    (h : ∀ part ∈ n.children, NestsWithin part j k) : NestsWithin n j k := by
  intro p hp
  cases hp with
  | leaf => simp [hn, openNesting, nesting]
  | @step _ part left p hexit rest =>
    have hpart : part ∈ n.children := by
      cases n <;> simp_all [exits, nests]
    simpa [hn] using h part hpart p rest

/-- A block or a prefix operator adds one to its parts. -/
theorem nestsWithin_succ_of_parts (hexits : n.exits = n.children.map (·, false))
    (h : ∀ part ∈ n.children, NestsWithin part j k) : NestsWithin n (j + 1) (k + 1) := by
  intro p hp
  cases hp with
  | leaf =>
    have hopen : openNesting [(n, false)] ≤ 1 := List.countP_le_length
    have hall : nesting [(n, false)] ≤ 1 := List.countP_le_length
    omega
  | @step _ part left p hexit rest =>
    rw [hexits] at hexit
    obtain ⟨m, hm, heq⟩ := List.mem_map.1 hexit
    cases heq
    obtain ⟨hopen, hall⟩ := h part hm p rest
    rw [openNesting_cons, nesting_cons]
    constructor <;> split <;> omega

/-- An infix operator adds one to its operands, but not to the left one if only the nodes count that
are left otherwise. -/
theorem nestsWithin_binary {o : Origin} {op : BinaryOp} {left right : Node}
    (hleft : NestsWithin left j k) (hright : NestsWithin right j' k') :
    NestsWithin (.binary o op left right) (max j (j' + 1)) (max k k' + 1) := by
  intro p hp
  cases hp with
  | leaf h => cases h
  | @step _ part side p hexit rest =>
    obtain ⟨rfl, rfl⟩ | ⟨rfl, rfl⟩ : part = left ∧ side = true ∨ part = right ∧ side = false := by
      simpa [exits] using hexit
    · obtain ⟨hopen, hall⟩ := hleft p rest
      have hself : openNesting ((.binary o op part right, true) :: p) = openNesting p := by simp
      have hself' : nesting ((.binary o op part right, true) :: p) = nesting p + 1 := by
        simp [nests]
      omega
    · obtain ⟨hopen, hall⟩ := hright p rest
      have hself : openNesting ((.binary o op left part, false) :: p) = openNesting p + 1 := by
        simp [nests]
      have hself' : nesting ((.binary o op left part, false) :: p) = nesting p + 1 := by
        simp [nests]
      omega

end

/-! ## Paths and erasure -/

/-- The parts of a tree without numbers and lines are its parts without them. -/
theorem children_erase (n : Node) : n.erase.children = n.children.map erase := by
  cases n with
  | declare _ _ _ init => cases init <;> rfl
  | branch _ _ _ negative => cases negative <;> rfl
  | _ => simp [erase, children, eraseAll_eq_map]

/-- Numbers and lines do not matter to nesting. -/
theorem nests_erase (n : Node) : n.erase.nests = n.nests := by
  cases n with
  | declare _ _ _ init => cases init <;> rfl
  | branch _ _ _ negative => cases negative <;> rfl
  | _ => rfl

/-- A path leaves a tree without numbers and lines where it leaves the tree. -/
theorem exits_erase (n : Node) :
    n.erase.exits = n.exits.map fun exit => (exit.1.erase, exit.2) := by
  cases n with
  | declare _ _ _ init => cases init <;> rfl
  | branch _ _ _ negative => cases negative <;> rfl
  | _ => simp [erase, exits, children, eraseAll_eq_map]

/-- A path through a tree is one through every tree that differs only in numbers and lines. -/
theorem IsPath.of_erase_eq {n m : Node} {p : List (Node × Bool)} (h : IsPath n p)
    (heq : m.erase = n.erase) :
    ∃ p', IsPath m p' ∧ openNesting p' = openNesting p ∧ nesting p' = nesting p := by
  have hnests : ∀ {n m : Node}, m.erase = n.erase → m.nests = n.nests := by
    intro n m heq
    rw [← nests_erase, heq, nests_erase]
  induction h generalizing m with
  | @leaf n h =>
    have hleaf : m.children.map erase = n.children.map erase := by
      rw [← children_erase, heq, children_erase]
    rw [h] at hleaf
    exact ⟨_, .leaf (List.map_eq_nil_iff.1 hleaf), by simp [hnests heq, openNesting, nesting]⟩
  | @step n part left p hexit _ ih =>
    have herased : (part.erase, left) ∈ m.erase.exits := by
      rw [heq, exits_erase]
      exact List.mem_map.2 ⟨_, hexit, rfl⟩
    rw [exits_erase] at herased
    obtain ⟨⟨part', left'⟩, hexit', hpair⟩ := List.mem_map.1 herased
    obtain ⟨hpart, rfl⟩ : part'.erase = part.erase ∧ left' = left := by simpa using hpair
    obtain ⟨p', path, hopen, hall⟩ := ih hpart
    exact ⟨_, .step hexit' path, by simp [hopen, hnests heq], by simp [hall, hnests heq]⟩

/-! ## Nodes without nesting -/

/-- A literal has no nesting. -/
theorem IsLiteral.nestsWithin {n : Node} (h : IsLiteral n) : NestsWithin n 0 0 := by
  cases h <;> exact nestsWithin_of_parts rfl nofun

/-- A field has no nesting. -/
theorem IsField.nestsWithin {n : Node} (h : IsField n) : NestsWithin n 0 0 := by
  obtain ⟨o, kind, name, properties⟩ := h
  refine nestsWithin_of_parts rfl fun n hn => ?_
  cases properties n hn with
  | scalar o key literal =>
    refine nestsWithin_of_parts rfl ?_
    simpa [children] using literal.nestsWithin
  | array o key items =>
    refine nestsWithin_of_parts rfl fun item hitem => ?_
    cases items item hitem <;> exact nestsWithin_of_parts rfl (List.forall_mem_nil _)

end Node

namespace Grammar

/-! ## The bounds -/

/-- The most nesting of a factor that opens a number of levels. -/
def factorBound : Nat → Nat
  | 0 => 0
  | d + 1 => factorBound d + max 1 (Tier.all.length * d)

/-- The most nesting of an expression of some tiers that opens a number of levels. -/
def tiersBound (ts : List Tier) (d : Nat) : Nat :=
  factorBound d + ts.length * d

/-- A factor that opens more levels may nest deeper. -/
theorem factorBound_monotone : Monotone factorBound :=
  monotone_nat_of_le_succ fun _ => Nat.le_add_right _ _

/-- An expression that opens more levels may nest deeper. -/
theorem tiersBound_monotone (ts : List Tier) : Monotone (tiersBound ts) :=
  fun _ _ h => Nat.add_le_add (factorBound_monotone h) (Nat.mul_le_mul_left _ h)

/-- Each tier adds an operator for every level. -/
theorem tiersBound_cons (t : Tier) (ts : List Tier) (d : Nat) :
    tiersBound (t :: ts) d = tiersBound ts d + d := by
  rw [tiersBound, tiersBound, List.length_cons, Nat.succ_mul, Nat.add_assoc]

/-- One more level allows for more nesting. -/
theorem factorBound_lt_succ (d : Nat) : factorBound d < factorBound (d + 1) := by
  rw [factorBound]
  omega

/-- A pair of parentheses takes a level more than what stands in it. -/
theorem tiersBound_all_le (d : Nat) : tiersBound Tier.all d ≤ factorBound (d + 1) := by
  rw [factorBound, tiersBound]
  omega

/-- A block takes a level more than what stands in it. -/
theorem tiersBound_lt_succ (ts : List Tier) (d : Nat) : tiersBound ts d < tiersBound ts (d + 1) :=
  Nat.add_lt_add_of_lt_of_le (factorBound_lt_succ d) (Nat.mul_le_mul_left _ (Nat.le_succ d))

/-- The nesting of what a rule reads is within the bounds for its depth. A chain adds one operator
for each of its levels to the larger of its operands. -/
def ExpressionRule.Bounds (d : Nat) (n : Node) : ExpressionRule → Prop
  | factor => n.NestsWithin d (factorBound d)
  | tiers ts => Tier.Layered ts → n.NestsWithin d (tiersBound ts d)
  | chain t left => ∀ {j k}, left.NestsWithin j k →
    n.NestsWithin (max j d) (max k (tiersBound t.tighter d) + d)

/-- What a rule for expressions reads nests within the bounds for its depth. -/
theorem ReadsExpression.bounds {r : ExpressionRule} {d : Nat} {s s' : TokenStream} {n : Node}
    (h : ReadsExpression r d s n s') : r.Bounds d n := by
  induction h with
  | int | str | bool | ident | scan => exact Node.nestsWithin_of_parts rfl nofun
  | @parens _ _ _ _ _ d _ _ _ ih =>
    exact (ih (.inr ⟨.or, rfl⟩)).mono (Nat.le_succ d) (tiersBound_all_le d)
  | @prefixed _ _ _ _ d _ _ _ _ _ ih =>
    refine (Node.nestsWithin_succ_of_parts rfl ?_).mono Nat.le.refl (factorBound_lt_succ d)
    exact List.forall_mem_singleton.2 ih
  | @atom _ _ _ d _ ih => exact fun _ => ih.mono Nat.le.refl (Nat.le_add_right (factorBound d) _)
  | @tier _ _ _ _ _ t ts d d' _ _ ih ih' =>
    intro hts
    obtain rfl : ts = t.tighter := by simpa [Tier.Layered] using hts
    have hd := tiersBound_monotone t.tighter (Nat.le_max_left d d')
    have hd' := tiersBound_monotone t.tighter (Nat.le_max_right d d')
    refine (ih' (ih t.layered_tighter)).mono Nat.le.refl ?_
    rw [tiersBound_cons]
    exact Nat.add_le_add (Nat.max_le.2 ⟨hd, hd'⟩) (Nat.le_max_right d d')
  | stop => exact fun hleft => hleft.mono (Nat.le_max_left _ _) (Nat.le_max_left _ _)
  | @more _ _ _ _ t _ _ _ d d' _ _ _ _ _ _ ih ih' =>
    intro j k hleft
    -- The operator is counted by its own level, the operators behind it by theirs.
    have hd := tiersBound_monotone t.tighter (show d ≤ max d d' + 1 by omega)
    have hd' := tiersBound_monotone t.tighter (show d' ≤ max d d' + 1 by omega)
    exact (ih' (Node.nestsWithin_binary hleft (ih t.layered_tighter))).mono (by omega) (by omega)

/-- The nesting of a node is within the bounds for an expression of a depth. -/
def NestsAt (d : Nat) (n : Node) : Prop :=
  n.NestsWithin d (tiersBound Tier.all d)

section
variable {d d' : Nat} {n : Node}

/-- The bounds for a larger depth hold as well. -/
theorem NestsAt.mono (h : NestsAt d n) (hd : d ≤ d') : NestsAt d' n :=
  Node.NestsWithin.mono h hd (tiersBound_monotone _ hd)

/-- A node that is no part of the nesting nests as its parts do. -/
theorem nestsAt_of_parts (hn : n.nests = false) (h : ∀ part ∈ n.children, NestsAt d part) :
    NestsAt d n :=
  Node.nestsWithin_of_parts hn h

/-- A whole expression nests within the bounds for its depth. -/
theorem ReadsExpression.nestsAt {s s' : TokenStream}
    (h : ReadsExpression (.tiers Tier.all) d s n s') : NestsAt d n :=
  h.bounds (.inr ⟨.or, rfl⟩)

/-- A field nests within the bounds for any depth. -/
theorem ReadsField.nestsAt {s s' : TokenStream} (h : ReadsField s n s') (d : Nat) : NestsAt d n :=
  h.isField.nestsWithin.mono (Nat.zero_le _) (Nat.zero_le _)

end

/-- A block takes a level more than its lines. -/
theorem nestsWithin_block {o : Origin} {d : Nat} {body : List Node} (h : ∀ n ∈ body, NestsAt d n) :
    (Node.block o body).NestsWithin (d + 1) (tiersBound Tier.all d + 1) :=
  Node.nestsWithin_succ_of_parts (n := .block o body) rfl h

/-- The nesting of what a rule reads is within the bounds for its depth. -/
theorem ReadsBlock.nestsAt {r : BlockRule} {d : Nat} {s s' : TokenStream} {ns : List Node}
    (h : ReadsBlock r d s ns s') : ∀ n ∈ ns, NestsAt d n := by
  induction h with
  | @block _ _ _ _ d _ _ _ _ ih =>
    exact List.forall_mem_singleton.2
      ((nestsWithin_block ih).mono Nat.le.refl (tiersBound_lt_succ _ d))
  | close | formClose => simp
  | field first _ ih | formField _ first _ ih => exact List.forall_mem_cons.2 ⟨first.nestsAt _, ih⟩
  | @statement _ _ _ d d' _ _ _ _ ih ih' =>
    refine List.forall_mem_cons.2 ⟨(ih _ (.head _)).mono (Nat.le_max_left d d'), fun n hn => ?_⟩
    exact (ih' n hn).mono (Nat.le_max_right d d')
  | print _ _ expr =>
    refine List.forall_mem_singleton.2 (nestsAt_of_parts rfl ?_)
    exact List.forall_mem_singleton.2 expr.nestsAt
  | declare | blank => exact List.forall_mem_singleton.2 (nestsAt_of_parts rfl nofun)
  | declareInit _ _ _ _ init =>
    refine List.forall_mem_singleton.2 (nestsAt_of_parts rfl ?_)
    exact List.forall_mem_singleton.2 init.nestsAt
  | assign _ _ value =>
    have htarget : ∀ {d o name}, NestsAt d (.ident o name) := nestsAt_of_parts rfl nofun
    refine List.forall_mem_singleton.2 (nestsAt_of_parts rfl ?_)
    simpa [Node.children] using ⟨htarget, value.nestsAt⟩
  | @loop _ _ _ _ _ d d' _ _ _ condition _ _ ih | @branch _ _ _ _ _ d d' _ _ _ condition _ _ ih =>
    have hcondition := condition.nestsAt.mono (Nat.le_max_left d d')
    have hblock := (ih _ (.head _)).mono (Nat.le_max_right d d')
    refine List.forall_mem_singleton.2 (nestsAt_of_parts rfl ?_)
    simpa [Node.children] using ⟨hcondition, hblock⟩
  | @branchElse _ _ _ _ _ _ _ d d' d'' _ _ _ _ condition _ _ _ _ ih ih' =>
    have hcondition := condition.nestsAt.mono (show d ≤ max d (max d' d'') by omega)
    have hblock := (ih _ (.head _)).mono (show d' ≤ max d (max d' d'') by omega)
    have hother := (ih' _ (.head _)).mono (show d'' ≤ max d (max d' d'') by omega)
    refine List.forall_mem_singleton.2 (nestsAt_of_parts rfl ?_)
    simpa [Node.children] using ⟨hcondition, hblock, hother⟩
  | formLine _ _ ih | formBare _ _ ih => exact ih
  | form _ _ _ _ ih => exact List.forall_mem_singleton.2 (nestsAt_of_parts rfl ih)
  | @formBlock _ _ _ _ _ _ d d' d'' c _ _ _ _ _ _ condition _ _ _ ih ih' =>
    have hcondition := condition.nestsAt.mono (show d ≤ max (max d d') d'' by omega)
    have hblock := (ih _ (.head _)).mono (show d' ≤ max (max d d') d'' by omega)
    refine List.forall_mem_cons.2 ⟨nestsAt_of_parts (by cases c <;> rfl) ?_, fun n hn => ?_⟩
    · rw [FormContainer.children_toNode]
      exact List.forall_mem_cons.2 ⟨hcondition, List.forall_mem_singleton.2 hblock⟩
    · exact (ih' n hn).mono (Nat.le_max_right _ _)

/-- The bounds for the tree of a program. -/
theorem nestsWithin_of_parse {source : String} {root : Node} (h : parse source = .ok root) :
    root.NestsWithin maxDepth (tiersBound Tier.all (maxDepth - 1) + 1) := by
  obtain ⟨s, s', d, -, hd, read⟩ := parse_ok h
  obtain ⟨-, read, -, -⟩ := read
  cases read with
  | @block _ _ _ _ d _ _ _ lines =>
    have hlines := tiersBound_monotone Tier.all (Nat.le_sub_one_of_lt hd)
    exact (nestsWithin_block lines.nestsAt).mono hd (Nat.add_le_add_right hlines 1)

/-! ## The bounds are reached -/

/-- Some expression that is written in a layout at a depth has a path with the given counts. -/
def Layout.Reaches (d j k : Nat) (layout : Layout) : Prop :=
  ∃ n w p, PrintsExpression layout d n w ∧ (∀ m ∈ n.walk, m.Spellable) ∧ n.IsPath p ∧
    Node.openNesting p = j ∧ Node.nesting p = k

section
variable {d j k : Nat}

/-- A chain as long as its depth on top of an expression puts all of its operators above it. -/
theorem Layout.Reaches.chain {t : Tier} {op : BinaryOp} (hop : tierOf op = t)
    (h : (Layout.tiers t.tighter).Reaches d j k) {i : Nat} (hi : i ≤ d) :
    (Layout.chain t i).Reaches d j (k + i) := by
  subst hop
  induction i with
  | zero =>
    obtain ⟨n, w, p, prints, hn, path, hopen, hall⟩ := h
    exact ⟨n, w, p, .first prints, hn, path, hopen, hall⟩
  | succ i ih =>
    obtain ⟨n, w, p, prints, hn, path, hopen, hall⟩ := ih (Nat.le_of_succ_le hi)
    have hone : PrintsExpression .factor 0 (.int default 1) [.integer 1] :=
      .literal (.int default 1)
    have hmore := PrintsExpression.more default op prints
      (hone.tiers_of_factor (tierOf op).layered_tighter)
    rw [Nat.add_zero, Nat.max_eq_left hi] at hmore
    refine ⟨_, _, _, hmore, ?_, .step (.head _) path, ?_, ?_⟩
    · rw [Node.forall_walk]
      simpa [Node.children, Node.walk, Node.Spellable] using hn
    · simpa using hopen
    · rw [Node.nesting_cons, hall]
      rfl

/-- Each tier can add an operator for every level that a factor opens. -/
theorem Layout.Reaches.tiers (h : Layout.factor.Reaches d j k) (ts : List Tier)
    (hts : Tier.Layered ts) : (Layout.tiers ts).Reaches d j (k + ts.length * d) := by
  induction ts with
  | nil =>
    obtain ⟨n, w, p, prints, hn, path, hopen, hall⟩ := h
    exact ⟨n, w, p, .atom prints, hn, path, hopen, by simp [hall]⟩
  | cons t ts ih =>
    obtain rfl : ts = t.tighter := by simpa [Tier.Layered] using hts
    obtain ⟨op, hop⟩ : ∃ op, tierOf op = t := by
      cases t with
      | or => exact ⟨.or, rfl⟩
      | and => exact ⟨.and, rfl⟩
      | relation => exact ⟨.less, rfl⟩
      | sum => exact ⟨.add, rfl⟩
      | product => exact ⟨.mul, rfl⟩
    obtain ⟨n, w, p, prints, hn, path, hopen, hall⟩ := (ih t.layered_tighter).chain hop Nat.le.refl
    refine ⟨n, w, p, .tier prints, hn, path, hopen, ?_⟩
    rw [hall, List.length_cons, Nat.succ_mul, Nat.add_assoc]

/-- A pair of parentheses opens a level and adds no nesting. -/
theorem Layout.Reaches.parens (h : (Layout.tiers Tier.all).Reaches d j k) :
    Layout.factor.Reaches (d + 1) j k := by
  obtain ⟨n, w, p, prints, hn, path, hopen, hall⟩ := h
  exact ⟨n, _, p, .parens prints, hn, path, hopen, hall⟩

/-- A sign opens a level and is nesting itself. -/
theorem Layout.Reaches.sign (h : Layout.factor.Reaches d j k) :
    Layout.factor.Reaches (d + 1) (j + 1) (k + 1) := by
  obtain ⟨n, w, p, prints, hn, path, rfl, rfl⟩ := h
  refine ⟨_, _, _, .unary default .minus prints, ?_, .step (.head _) path, ?_, ?_⟩
  · rw [Node.forall_walk]
    simpa [Node.children, Node.Spellable] using hn
  · rw [Node.openNesting_cons]
    rfl
  · rw [Node.nesting_cons]
    rfl

/-- A literal opens no level and has no nesting. -/
theorem reaches_literal : Layout.factor.Reaches 0 0 0 :=
  ⟨.int default 1, _, _, .literal (.int default 1), by simp [Node.walk, Node.Spellable],
    .leaf rfl, rfl, rfl⟩

/-- A row of signs opens a level with each. -/
theorem reaches_signs (d : Nat) : Layout.factor.Reaches d d d := by
  induction d with
  | zero => exact reaches_literal
  | succ d ih => exact ih.sign

/-- Chains of all tiers within each other's parentheses reach the bound for a factor. -/
theorem reaches_factorBound (d : Nat) : ∃ j, Layout.factor.Reaches d j (factorBound d) := by
  induction d with
  | zero => exact ⟨0, reaches_literal⟩
  | succ d ih =>
    obtain ⟨j, ih⟩ := ih
    cases d with
    | zero => exact ⟨j + 1, ih.sign⟩
    | succ d =>
      have hmax : max 1 (Tier.all.length * (d + 1)) = Tier.all.length * (d + 1) :=
        Nat.max_eq_right (Nat.mul_pos (by decide) d.succ_pos)
      rw [factorBound, hmax]
      exact ⟨j, (ih.tiers Tier.all (.inr ⟨.or, rfl⟩)).parens⟩

/-- An expression in a block of its own, as the argument of a print statement. -/
theorem Layout.Reaches.exists_parse (h : (Layout.tiers Tier.all).Reaches d j k)
    (hd : d < maxDepth) :
    ∃ source root p, parse source = .ok root ∧ root.IsPath p ∧ Node.openNesting p = j + 1 ∧
      Node.nesting p = k + 1 := by
  obtain ⟨n, w, p, prints, hn, path, rfl, rfl⟩ := h
  have hprints := PrintsBlock.block default (.line (.print default prints) .noLine)
  have hpath : (Node.block default [.print default n]).IsPath _ :=
    .step (.head _) (.step (.head _) path)
  obtain ⟨s, root, s', hstream, read, heq⟩ :=
    reads_spaced hprints (by
      rw [Node.forall_walk]
      simpa [Node.children, Node.walk, Node.Spellable] using hn)
  obtain ⟨p', path', hopen, hall⟩ := hpath.of_erase_eq heq
  have hdepth : max d 0 + 1 ≤ maxDepth := by rwa [Nat.max_zero]
  exact ⟨_, root, p', read.parse_eq hstream hdepth, path', by simpa [Node.nests] using hopen,
    by simpa [Node.nests] using hall⟩

end

/-- How deep the tree of a program can be. On a path there are up to 40642 blocks and operators, and
up to `maxDepth` of them if those operators do not count which the path leaves through their left
operand. -/
theorem parse_nesting_isGreatest :
    IsGreatest {k | ∃ source root p, parse source = .ok root ∧ root.IsPath p ∧ Node.nesting p = k}
      40642 ∧
    IsGreatest {k | ∃ source root p, parse source = .ok root ∧ root.IsPath p ∧
      Node.openNesting p = k}
      maxDepth := by
  have hbound : tiersBound Tier.all (maxDepth - 1) + 1 = 40642 := by decide +kernel
  refine ⟨⟨?_, ?_⟩, ?_, ?_⟩
  · obtain ⟨j, h⟩ := reaches_factorBound (maxDepth - 1)
    obtain ⟨source, root, p, hparse, hpath, -, hall⟩ :=
      (h.tiers Tier.all (.inr ⟨.or, rfl⟩)).exists_parse (by decide)
    exact ⟨source, root, p, hparse, hpath, hall.trans hbound⟩
  · rintro _ ⟨source, root, p, hparse, hpath, rfl⟩
    exact hbound ▸ (nestsWithin_of_parse hparse p hpath).2
  · obtain ⟨source, root, p, hparse, hpath, hopen, -⟩ :=
      ((reaches_signs (maxDepth - 1)).tiers Tier.all (.inr ⟨.or, rfl⟩)).exists_parse (by decide)
    exact ⟨source, root, p, hparse, hpath, hopen⟩
  · rintro _ ⟨source, root, p, hparse, hpath, rfl⟩
    exact (nestsWithin_of_parse hparse p hpath).1

end Grammar

end FormScript
