import Mathlib.Data.List.Nodup
import FormScript.Proofs.Printing.Tree

/-!
# The tokens of a node

`Node.frame` is how a node is written: its own tokens and, between them, its parts. `Covers P ps w`
says that the tokens `w` are the pieces `ps` one behind the other, and that `P` holds of every node
in them and of the first token of that node. Parentheses around an expression belong to it. A
property whose key comes more than once in its field has the tokens of all entries with the key: the
first entry gives it its place, the last one its value (`CoversEntries`).

The rest of the module is about what follows for the tree from the order of the tokens
(`Node.Placed`).
-/

namespace FormScript

open Grammar (propertyKey?)

/-- A piece of a written node. -/
inductive Piece where
  | token (token : Token)
  /-- Line ends and commas that belong to no part. -/
  | gap
  | part (n : Node)
  /-- An expression, in parentheses or without. -/
  | operand (n : Node)
  /-- The properties of a field, with all that stands between them. -/
  | properties (ns : List Node)

/-- The nodes of a piece. -/
def Piece.nodes : Piece → List Node
  | token _ | gap => []
  | part n | operand n => [n]
  | properties ns => ns

namespace Node

/-- A line of a block. -/
def linePieces : Node → List Piece
  | n@(field _ _ _ _) | n@(blank _) => [.part n]
  | n@(form _ _ _) => [.part n, .gap]
  | n => [.part n, .token .newline]

/-- Parts with gaps behind them. -/
def spread (ns : List Node) : List Piece :=
  ns.flatMap fun n => [.part n, .gap]

/-- How a node is written. A property is not written by itself, but as one of the properties of its
field. -/
def frame : Node → List Piece
  | int _ k => [.token (.integer k)]
  | str _ content => [.token (.text content)]
  | bool _ b => [.token (.boolean b)]
  | ident _ name => [.token (.identifier name)]
  | unary _ op e => [.token (.mark op.mark), .operand e]
  | binary _ op left right => [.operand left, .token (.mark op.mark), .operand right]
  | block _ body =>
    .token (.mark .openBrace) :: .token .newline ::
      (body.flatMap linePieces ++ [.token (.mark .closeBrace)])
  | assign _ target value => [.part target, .token (.mark .assign), .operand value]
  | declare _ name type none =>
    [.token (.keyword .declare), .token (.identifier name), .token (.typeName type)]
  | declare _ name type (some init) =>
    [.token (.keyword .declare), .token (.identifier name), .token (.typeName type),
      .token (.mark .assign), .operand init]
  | branch _ condition positive none =>
    [.token (.keyword .branch), .operand condition, .part positive]
  | branch _ condition positive (some negative) =>
    [.token (.keyword .branch), .operand condition, .part positive, .token (.keyword .otherwise),
      .part negative]
  | loop _ condition body => [.token (.keyword .loop), .operand condition, .part body]
  | print _ e =>
    [.token (.keyword .print), .token (.mark .openParen), .operand e, .token (.mark .closeParen)]
  | scan _ => [.token (.keyword .scan), .token (.mark .openParen), .token (.mark .closeParen)]
  | field _ kind name ns =>
    [.token (.fieldKind kind), .token (.identifier name), .token (.mark .openBrace), .properties ns,
      .token (.mark .closeBrace)]
  | scalar _ _ _ | array _ _ _ => []
  | form _ name body =>
    .token (.keyword .form) :: .token (.identifier name) :: .token (.mark .openBrace) :: .gap ::
      (spread body ++ [.token (.mark .closeBrace)])
  | blank _ => [.token .newline]

/-- The only node of a line is the node on it. -/
theorem nodes_linePieces (n : Node) : n.linePieces.flatMap Piece.nodes = [n] := by
  cases n <;> rfl

/-- The nodes of the lines of a block are those of the block. -/
theorem nodes_lines (body : List Node) : (body.flatMap linePieces).flatMap Piece.nodes = body := by
  induction body with
  | nil => rfl
  | cons n ns ih =>
    rw [List.flatMap_cons, List.flatMap_append, nodes_linePieces, ih, List.singleton_append]

/-- Gaps add no nodes. -/
theorem nodes_spread (ns : List Node) : (spread ns).flatMap Piece.nodes = ns := by
  induction ns with
  | nil => rfl
  | cons n ns ih => exact congrArg (n :: ·) ih

/-- The nodes in the frame of a node are its parts, in their order. -/
theorem nodes_frame {n : Node} (h : n.frame ≠ []) : n.frame.flatMap Piece.nodes = n.children := by
  cases n with
  | block _ body => simp [frame, children, Piece.nodes, nodes_lines]
  | form _ _ body => simp [frame, children, Piece.nodes, nodes_spread]
  | declare _ _ _ init => cases init <;> rfl
  | branch _ _ _ negative => cases negative <;> rfl
  | field _ _ _ ns => simp [frame, children, Piece.nodes]
  | scalar | array => exact absurd rfl h
  | _ => rfl

end Node

/-! ## Pieces and tokens -/

/-- A token that can stand between parts without belonging to one. -/
def Lexeme.IsFiller (l : Lexeme) : Prop :=
  l.token = .newline ∨ l.token = .mark .comma

section
variable (P : Node → Lexeme → Prop)

/-- The tokens hold the items of an array, up to and with the closing bracket. -/
inductive CoversItems : List Node → List Lexeme → Prop where
  | close {l : Lexeme} (right : l.token = .mark .closeBracket) : CoversItems [] [l]
  | filler {l : Lexeme} {ns : List Node} {w : List Lexeme} (filler : l.IsFiller)
      (rest : CoversItems ns w) :
    CoversItems ns (l :: w)
  | item {l : Lexeme} {n : Node} {ns : List Node} {w : List Lexeme}
      (word : n.frame = [.token l.token])
      (first : P n l) (rest : CoversItems ns w) :
    CoversItems (n :: ns) (l :: w)

/-- The tokens hold an entry for a property. -/
inductive CoversEntry : Node → List Lexeme → Prop where
  | scalar {l l₁ l₂ : Lexeme} {key : String} {value : Node} (o : Origin)
      (name : l.token = .identifier key)
      (colon : l₁.token = .mark .colon) (word : value.frame = [.token l₂.token])
      (first : P value l₂) :
    CoversEntry (.scalar o key value) [l, l₁, l₂]
  | array {l l₁ l₂ : Lexeme} {key : String} {items : List Node} {w : List Lexeme} (o : Origin)
      (name : l.token = .identifier key) (colon : l₁.token = .mark .colon)
      (left : l₂.token = .mark .openBracket) (read : CoversItems P items w) :
    CoversEntry (.array o key items) (l :: l₁ :: l₂ :: w)

/-- The tokens hold the entries for properties, each of which is given with the first token of its
first entry. A later entry for the same key replaces the value. -/
inductive CoversEntries : List (Node × Lexeme) → List Lexeme → Prop where
  | none : CoversEntries [] []
  | filler {l : Lexeme} {ps : List (Node × Lexeme)} {w : List Lexeme} (before : CoversEntries ps w)
      (filler : l.IsFiller) :
    CoversEntries ps (w ++ [l])
  | new {l : Lexeme} {ps : List (Node × Lexeme)} {n : Node} {w v : List Lexeme}
      (before : CoversEntries ps w)
      (new : propertyKey? n ∉ (ps.map Prod.fst).map propertyKey?)
      (entry : CoversEntry P n (l :: v)) :
    CoversEntries (ps ++ [(n, l)]) (w ++ l :: v)
  | again {first : Lexeme} {front behind : List (Node × Lexeme)} {p n : Node} {w v : List Lexeme}
      (before : CoversEntries (front ++ (p, first) :: behind) w)
      (same : propertyKey? n = propertyKey? p)
      (place : n.origin = p.origin) (entry : CoversEntry P n v) :
    CoversEntries (front ++ (n, first) :: behind) (w ++ v)

/-- The tokens are the pieces, and `P` holds of each node in them and of its first token. -/
inductive Covers : List Piece → List Lexeme → Prop where
  | nil : Covers [] []
  | token {l : Lexeme} {token : Token} {ps : List Piece} {w : List Lexeme} (word : l.token = token)
      (rest : Covers ps w) :
    Covers (.token token :: ps) (l :: w)
  | gap {ps : List Piece} {w : List Lexeme} (rest : Covers ps w) : Covers (.gap :: ps) w
  | filler {l : Lexeme} {ps : List Piece} {w : List Lexeme} (filler : l.IsFiller)
      (rest : Covers (.gap :: ps) w) :
    Covers (.gap :: ps) (l :: w)
  | part {l : Lexeme} {n : Node} {ps : List Piece} {v w : List Lexeme} (first : P n l)
      (whole : Covers n.frame (l :: v)) (rest : Covers ps w) :
    Covers (.part n :: ps) (l :: v ++ w)
  | bare {n : Node} {ps : List Piece} {w : List Lexeme} (rest : Covers (.part n :: ps) w) :
    Covers (.operand n :: ps) w
  | parens {l l' : Lexeme} {n : Node} {ps : List Piece} {v w : List Lexeme} (first : P n l)
      (left : l.token = .mark .openParen) (inner : Covers [.operand n] v)
      (right : l'.token = .mark .closeParen) (rest : Covers ps w) :
    Covers (.operand n :: ps) (l :: (v ++ l' :: w))
  | properties {qs : List (Node × Lexeme)} {ps : List Piece} {v w : List Lexeme}
      (firsts : ∀ q ∈ qs, P q.1 q.2) (entries : CoversEntries P qs v) (rest : Covers ps w) :
    Covers (.properties (qs.map Prod.fst) :: ps) (v ++ w)

/-- The tokens are those that a node was parsed from, and `P` holds of each node of its tree and of
the first token of that node. -/
def Node.ParsedFrom (n : Node) (w : List Lexeme) : Prop :=
  Covers P [.part n] w

end

section
variable {P Q : Node → Lexeme → Prop} {ps qs : List Piece} {v w : List Lexeme}

/-- Pieces are covered by the tokens of each, one behind the other. -/
theorem Covers.append (h : Covers P ps v) (h' : Covers P qs w) : Covers P (ps ++ qs) (v ++ w) := by
  induction h with
  | nil => exact h'
  | token word _ ih => exact .token word ih
  | gap _ ih => exact .gap ih
  | filler filler _ ih => exact .filler filler ih
  | part first whole _ _ ih =>
    rw [List.append_assoc]
    exact .part first whole ih
  | bare _ ih => exact .bare ih
  | parens first left inner right _ _ ih =>
    rw [List.cons_append, List.cons_append, List.append_assoc]
    exact .parens first left inner right ih
  | properties firsts entries _ ih =>
    rw [List.cons_append, List.append_assoc]
    exact .properties firsts entries ih

/-- A node is a part where its first token and its own pieces are as they should be. -/
theorem Covers.node {l : Lexeme} {n : Node} (first : P n l) (whole : Covers P n.frame (l :: w)) :
    Covers P [.part n] (l :: w) := by
  have hnode := Covers.part first whole .nil
  rwa [List.append_nil] at hnode

/-- The parts of a node that has tokens are the nodes of its frame. -/
theorem Covers.nodes_frame {l : Lexeme} {n : Node} (whole : Covers P n.frame (l :: w)) :
    n.frame.flatMap Piece.nodes = n.children := by
  refine Node.nodes_frame fun hnil => ?_
  rw [hnil] at whole
  cases whole

/-- An operand has a first token. -/
theorem Covers.exists_first {n : Node} (h : Covers P (.operand n :: ps) w) : ∃ l v, w = l :: v := by
  cases h with
  | parens => exact ⟨_, _, rfl⟩
  | bare h =>
    cases h with
    | part => exact ⟨_, _, rfl⟩

/-- The first token of an expression is the first token of its node. -/
theorem Covers.first_operand {l : Lexeme} {n : Node} (h : Covers P (.operand n :: ps) (l :: w)) :
    P n l := by
  generalize hw : l :: w = u at h
  cases h with
  | parens first =>
    cases hw
    exact first
  | bare h =>
    cases h with
    | part first =>
      cases hw
      exact first

/-- Fillers may stand in front of the items of an array. -/
theorem CoversItems.fillers {ns : List Node} (h : CoversItems P ns w) (hv : ∀ l ∈ v, l.IsFiller) :
    CoversItems P ns (v ++ w) := by
  induction v with
  | nil => exact h
  | cons l v ih =>
    rw [List.forall_mem_cons] at hv
    exact .filler hv.1 (ih hv.2)

/-- Fillers may stand behind the entries of a field. -/
theorem CoversEntries.fillers {qs : List (Node × Lexeme)} (h : CoversEntries P qs w)
    (hv : ∀ l ∈ v, l.IsFiller) : CoversEntries P qs (w ++ v) := by
  induction v generalizing w with
  | nil => rwa [List.append_nil]
  | cons l v ih =>
    rw [List.forall_mem_cons] at hv
    rw [List.append_cons]
    exact ih (.filler h hv.1) hv.2

/-- No two properties of a field have the same key. -/
theorem CoversEntries.nodup {qs : List (Node × Lexeme)} (h : CoversEntries P qs w) :
    ((qs.map Prod.fst).map propertyKey?).Nodup := by
  induction h with
  | none => exact .nil
  | filler _ _ ih => exact ih
  | new _ new _ ih =>
    rw [List.map_append, List.map_append]
    refine List.nodup_append.2 ⟨ih, List.nodup_singleton _, ?_⟩
    rintro key hkey _ hmem rfl
    exact new (List.mem_singleton.1 hmem ▸ hkey)
  | again _ same _ _ ih => simpa [same] using ih

/-! ## Other properties of the first tokens -/

/-- A node that is a single token has no parts. -/
theorem Node.children_of_word {n : Node} {token : Token} (h : n.frame = [.token token]) :
    n.children = [] := by
  rw [← nodes_frame (by simp [h]), h]
  rfl

/-- A weaker property of words and their tokens holds of the items as well. -/
theorem CoversItems.mono {ns : List Node} (h : CoversItems P ns w)
    (hword : ∀ n l, n.children = [] → P n l → Q n l) : CoversItems Q ns w := by
  induction h with
  | close right => exact .close right
  | filler filler _ ih => exact .filler filler ih
  | item word first _ ih => exact .item word (hword _ _ (Node.children_of_word word) first) ih

/-- A weaker property of words and their tokens holds of an entry as well. -/
theorem CoversEntry.mono {n : Node} (h : CoversEntry P n w)
    (hword : ∀ n l, n.children = [] → P n l → Q n l) : CoversEntry Q n w := by
  cases h with
  | scalar o name colon word first =>
    exact .scalar o name colon word (hword _ _ (Node.children_of_word word) first)
  | array o name colon left read => exact .array o name colon left (read.mono hword)

/-- A weaker property of words and their tokens holds of all entries as well. -/
theorem CoversEntries.mono {qs : List (Node × Lexeme)} (h : CoversEntries P qs w)
    (hword : ∀ n l, n.children = [] → P n l → Q n l) : CoversEntries Q qs w := by
  induction h with
  | none => exact .none
  | filler _ filler ih => exact .filler ih filler
  | new _ new entry ih => exact .new ih new (entry.mono hword)
  | again _ same place entry ih => exact .again ih same place (entry.mono hword)

/-- The first tokens have every other property that follows from `P` for the nodes of the pieces.
Replaced values are not among these, but single tokens. -/
theorem Covers.mono (h : Covers P ps w) (hword : ∀ n l, n.children = [] → P n l → Q n l)
    (hps : ∀ n ∈ ps.flatMap Piece.nodes, ∀ m ∈ n.walk, ∀ l, P m l → Q m l) : Covers Q ps w := by
  induction h with
  | nil => exact .nil
  | token word _ ih => exact .token word (ih hps)
  | gap _ ih => exact .gap (ih hps)
  | filler filler _ ih => exact .filler filler (ih hps)
  | @part _ n _ _ _ first whole _ ih ih' =>
    rw [List.flatMap_cons, List.forall_mem_append] at hps
    obtain ⟨hself, hparts⟩ := Node.forall_walk.1 (hps.1 n (.head _))
    refine .part (hself _ first) (ih ?_) (ih' hps.2)
    rw [whole.nodes_frame]
    exact hparts
  | bare _ ih => exact .bare (ih hps)
  | @parens _ _ n _ _ _ first left _ right _ ih ih' =>
    rw [List.flatMap_cons, List.forall_mem_append] at hps
    obtain ⟨hself, -⟩ := Node.forall_walk.1 (hps.1 n (.head _))
    exact .parens (hself _ first) left (ih (by simpa [Piece.nodes] using hps.1)) right (ih' hps.2)
  | properties firsts entries _ ih =>
    rw [List.flatMap_cons, List.forall_mem_append] at hps
    refine .properties (fun q hq => ?_) (entries.mono hword) (ih hps.2)
    obtain ⟨hself, -⟩ := Node.forall_walk.1 (hps.1 q.1 (List.mem_map_of_mem hq))
    exact hself _ (firsts q hq)

/-! ## Nodes in the order of their tokens -/

/-- A node has a first token, which is also the first token of its left operand and not behind the
first token of any part. -/
def Node.Placed (P : Node → Lexeme → Prop) (n : Node) : Prop :=
  ∃ first, P n first ∧ (∀ o op left right, n = .binary o op left right → P left first) ∧
    ∀ part ∈ n.children, ∃ l, P part l ∧ first.line ≤ l.line

/-- A single word is placed where its token is. -/
theorem Node.placed_of_word {n : Node} {l : Lexeme} (hword : n.children = []) (h : P n l) :
    ∀ m ∈ n.walk, m.Placed P := by
  refine forall_walk.2 ⟨⟨l, h, ?_, by simp [hword]⟩, by simp [hword]⟩
  rintro o op left right rfl
  cases hword

/-- The items of an array are words, each with its token among those of the array. -/
theorem CoversItems.words {ns : List Node} (h : CoversItems P ns w) :
    ∀ n ∈ ns, n.children = [] ∧ ∃ l ∈ w, P n l := by
  induction h with
  | close => simp
  | filler _ _ ih =>
    intro n hn
    obtain ⟨hword, l, hl, first⟩ := ih n hn
    exact ⟨hword, l, .tail _ hl, first⟩
  | @item l n _ _ word first _ ih =>
    refine List.forall_mem_cons.2 ⟨⟨Node.children_of_word word, l, .head _, first⟩, fun n hn => ?_⟩
    obtain ⟨hword, l, hl, first⟩ := ih n hn
    exact ⟨hword, l, .tail _ hl, first⟩

/-- The values of an entry are words, each with its token among those of the entry. -/
theorem CoversEntry.words {n : Node} (h : CoversEntry P n w) :
    n.frame = [] ∧ ∀ part ∈ n.children, part.children = [] ∧ ∃ l ∈ w, P part l := by
  cases h with
  | scalar o name colon word first =>
    refine ⟨rfl, List.forall_mem_singleton.2 ⟨Node.children_of_word word, _, ?_, first⟩⟩
    simp
  | array o name colon left read =>
    refine ⟨rfl, fun part hpart => ?_⟩
    obtain ⟨hword, l, hl, first⟩ := read.words part hpart
    exact ⟨hword, l, .tail _ (.tail _ (.tail _ hl)), first⟩

/-- A property has its first token among the given ones and its values behind it. -/
structure Settled (P : Node → Lexeme → Prop) (w : List Lexeme) (q : Node × Lexeme) : Prop where
  property : q.1.frame = []
  first : q.2 ∈ w
  values : ∀ part ∈ q.1.children, part.children = [] ∧ ∃ l ∈ w, P part l ∧ q.2.line ≤ l.line

/-- A property that is settled among tokens is settled among more of them. -/
theorem Settled.append {q : Node × Lexeme} (h : Settled P w q) (v : List Lexeme) :
    Settled P (w ++ v) q where
  property := h.property
  first := List.mem_append_left v h.first
  values part hpart := by
    obtain ⟨hword, l, hl, first, hle⟩ := h.values part hpart
    exact ⟨hword, l, List.mem_append_left v hl, first, hle⟩

/-- The first token of a property is not behind its values, also where these are from a later
entry. -/
theorem CoversEntries.settled {qs : List (Node × Lexeme)} (h : CoversEntries P qs w)
    (hw : w.Pairwise fun l l' => l.line ≤ l'.line) : ∀ q ∈ qs, Settled P w q := by
  induction h with
  | none => simp
  | filler _ _ ih => exact fun q hq => (ih (List.pairwise_append.1 hw).1 q hq).append _
  | @new l qs n w v _ _ entry ih =>
    obtain ⟨hbefore, hentry, -⟩ := List.pairwise_append.1 hw
    obtain ⟨hframe, hwords⟩ := entry.words
    have hnew : Settled P (w ++ l :: v) (n, l) := by
      refine ⟨hframe, List.mem_append_right _ (.head _), fun part hpart => ?_⟩
      obtain ⟨hword, l', hl', first⟩ := hwords part hpart
      have hle : l.line ≤ l'.line := by
        cases hl' with
        | head => exact Nat.le_refl _
        | tail _ hl' => exact List.rel_of_pairwise_cons hentry hl'
      exact ⟨hword, l', List.mem_append_right _ hl', first, hle⟩
    exact List.forall_mem_append.2
      ⟨fun q hq => (ih hbefore q hq).append _, List.forall_mem_singleton.2 hnew⟩
  | @again first front behind p n w v _ _ _ entry ih =>
    obtain ⟨hbefore, -, hacross⟩ := List.pairwise_append.1 hw
    obtain ⟨hframe, hwords⟩ := entry.words
    obtain ⟨hfront, hthis, hbehind⟩ : (∀ q ∈ front, Settled P w q) ∧ Settled P w (p, first) ∧
        ∀ q ∈ behind, Settled P w q := by
      simpa only [List.forall_mem_append, List.forall_mem_cons] using ih hbefore
    have hagain : Settled P (w ++ v) (n, first) := by
      refine ⟨hframe, List.mem_append_left _ hthis.first, fun part hpart => ?_⟩
      obtain ⟨hword, l, hl, hP⟩ := hwords part hpart
      exact ⟨hword, l, List.mem_append_right _ hl, hP, hacross _ hthis.first _ hl⟩
    exact List.forall_mem_append.2 ⟨fun q hq => (hfront q hq).append v,
      List.forall_mem_cons.2 ⟨hagain, fun q hq => (hbehind q hq).append v⟩⟩

/-- A property that is settled is placed, and so are its values. -/
theorem Settled.placed {q : Node × Lexeme} (h : Settled P w q) (hfirst : P q.1 q.2) :
    ∀ m ∈ q.1.walk, m.Placed P := by
  refine Node.forall_walk.2 ⟨⟨q.2, hfirst, fun o op left right heq => ?_, fun part hpart => ?_⟩,
    fun part hpart => ?_⟩
  · have hframe := h.property
    rw [heq] at hframe
    cases hframe
  · obtain ⟨-, l, -, first, hle⟩ := h.values part hpart
    exact ⟨l, first, hle⟩
  · obtain ⟨hword, l, -, first, -⟩ := h.values part hpart
    exact Node.placed_of_word hword first

/-- A node has its first token among the given ones, and all nodes of its tree are placed. -/
def Node.Located (P : Node → Lexeme → Prop) (w : List Lexeme) (n : Node) : Prop :=
  (∃ l ∈ w, P n l) ∧ ∀ m ∈ n.walk, m.Placed P

/-- A node that is located among tokens is located among more of them. -/
theorem Node.Located.mono {n : Node} (h : n.Located P v) (hsub : v ⊆ w) : n.Located P w := by
  obtain ⟨⟨l, hl, first⟩, hplaced⟩ := h
  exact ⟨⟨l, hsub hl, first⟩, hplaced⟩

/-- A node whose parts have their first tokens among its own is placed. -/
theorem Covers.located_node {l : Lexeme} {n : Node} (first : P n l)
    (whole : Covers P n.frame (l :: w)) (hw : (l :: w).Pairwise fun l l' => l.line ≤ l'.line)
    (hparts : ∀ part ∈ n.children, part.Located P (l :: w)) : n.Located P (l :: w) := by
  refine ⟨⟨l, .head _, first⟩, Node.forall_walk.2 ⟨⟨l, first, ?_, fun part hpart => ?_⟩,
    fun part hpart => ?_⟩⟩
  · rintro o op left right rfl
    exact whole.first_operand
  · obtain ⟨⟨l', hl', first'⟩, -⟩ := hparts part hpart
    cases hl' with
    | head => exact ⟨l, first', Nat.le_refl _⟩
    | tail _ hl' => exact ⟨l', first', List.rel_of_pairwise_cons hw hl'⟩
  · exact (hparts part hpart).2

/-- Where the lines of the tokens do not decrease, all nodes of the pieces are placed. -/
theorem Covers.located (h : Covers P ps w) (hw : w.Pairwise fun l l' => l.line ≤ l'.line) :
    ∀ n ∈ ps.flatMap Piece.nodes, n.Located P w := by
  induction h with
  | nil => simp
  | token _ _ ih | filler _ _ ih =>
    exact fun n hn => (ih hw.of_cons n hn).mono (List.subset_cons_self _ _)
  | gap _ ih | bare _ ih => exact ih hw
  | @part l n ps v w first whole _ ih ih' =>
    obtain ⟨hwhole, hrest, -⟩ := List.pairwise_append.1 hw
    have hparts := ih hwhole
    rw [whole.nodes_frame] at hparts
    exact List.forall_mem_cons.2
      ⟨(located_node first whole hwhole hparts).mono (List.subset_append_left _ _),
        fun m hm => (ih' hrest m hm).mono (List.subset_append_right _ _)⟩
  | @parens l l' n ps v w first left _ right _ ih ih' =>
    obtain ⟨hinner, hrest, -⟩ := List.pairwise_append.1 hw.of_cons
    obtain ⟨-, hplaced⟩ := ih hinner n (.head _)
    have hsub : w ⊆ l :: (v ++ l' :: w) :=
      fun _ hl => .tail _ (List.mem_append_right _ (.tail _ hl))
    exact List.forall_mem_cons.2
      ⟨⟨⟨l, .head _, first⟩, hplaced⟩, fun m hm => (ih' hrest.of_cons m hm).mono hsub⟩
  | @properties qs ps v w firsts entries _ ih =>
    obtain ⟨hentries, hrest, -⟩ := List.pairwise_append.1 hw
    refine List.forall_mem_append.2 ⟨fun n hn => ?_, fun n hn => ?_⟩
    · obtain ⟨q, hq, rfl⟩ := List.mem_map.1 hn
      have hsettled := entries.settled hentries q hq
      exact ⟨⟨q.2, List.mem_append_left _ hsettled.first, firsts q hq⟩,
        hsettled.placed (firsts q hq)⟩
    · exact (ih hrest n hn).mono (List.subset_append_right _ _)

end

end FormScript
