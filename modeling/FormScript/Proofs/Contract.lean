import FormScript.Proofs.Shape
import FormScript.Proofs.Termination

/-!
# What the parser passes on

A rule of the grammar does nothing to a stream but take tokens, number nodes and open and close
levels, and it makes up no lines of its own: those of its nodes and of its errors are lines of
tokens that it has seen. A `Parse.Law` says what holds of streams, of lines and of failures, where
these steps keep to it, and `Law.Keeps Q p` that a parser `p` does: its answers have the property
`Q`, the streams it leaves are such as the law says, and so are those that it leaves when it fails.
The bodies of all rules keep every law if the calls in them do, and so do the rules
(`Law.run_keeps`).

A `Parse.Contract` is a law that speaks of no more than the readings that a stream still offers;
`parse` keeps every contract (`Contract.parse_ok`, `Contract.parse_error`).
-/

namespace FormScript

open Grammar

/-- What holds of streams, lines and failures throughout a parse. -/
structure Parse.Law where
  holds : TokenStream → Prop
  line : Nat → Prop
  /-- The streams that a failure leaves. -/
  fails : ParseError → TokenStream → Prop
  line_of_holds : ∀ {s}, holds s → line s.current.line
  taken : ∀ {s lexeme s'}, holds s → advance s = .ok lexeme s' → holds s'
  refused : ∀ {s e s'}, holds s → advance s = .error e s' → fails e s'
  /-- A failure that takes nothing. -/
  unfit : ∀ {s n fault}, holds s → line n → fails (.grammar ⟨n, fault⟩) s
  entered : ∀ {s}, holds s → s.depth < maxDepth → holds s.deeper
  left : ∀ {s}, holds s → holds s.shallower
  numbered : ∀ {s}, holds s → holds s.numbered

namespace Parse.Law

variable (L : Law)

/-- A parser has answered with `Q` and left a stream of the law, or failed as the law says. -/
def Allows {α : Type} (Q : α → Prop) : EStateM.Result ParseError TokenStream α → Prop
  | .ok a s => Q a ∧ L.holds s
  | .error e s => L.fails e s

/-- A parser does so from every stream of the law. -/
def Keeps {α : Type} (Q : α → Prop) (p : Parse α) : Prop :=
  ∀ s : TokenStream, L.holds s → L.Allows Q (p s)

/-- All lines of a tree are allowed. -/
def Lined (n : Node) : Prop :=
  ∀ m ∈ n.walk, L.line m.line

/-- All lines in what a rule is given are allowed. -/
def Ready : Rule → Prop
  | .expression (.chain _ left) => L.Lined left
  | .properties before => ∀ n ∈ before, L.Lined n
  | _ => True

/-- All lines in what a rule gives are allowed. A value has none before it is put under a key. -/
def Fine : (r : Rule) → r.Result → Prop
  | .lineEnds => fun _ => True
  | .arrayItems | .properties _ | .children | .lines _ => fun items => ∀ n ∈ items, L.Lined n
  | .value => fun value => ∀ o key, L.line o.line → L.Lined (value.toNode o key)
  | .expression _ | .field | .print | .declaration | .assignment | .loop | .branch | .form
  | .statement | .block _ | .program => L.Lined

/-- Every call keeps the law. -/
def Serves (call : (r : Rule) → Parse r.Result) : Prop :=
  ∀ r, L.Ready r → L.Keeps (L.Fine r) (call r)

variable {L}

/-- All lines of a tree are allowed if that of its root is, and those of the trees below it are. -/
theorem lined_iff {n : Node} : L.Lined n ↔ L.line n.line ∧ ∀ part ∈ n.children, L.Lined part :=
  Node.forall_walk

/-- Where every line is allowed, a rule can be given anything. -/
theorem ready_of_lines (h : ∀ n, L.line n) (r : Rule) : L.Ready r := by
  cases r with
  | expression r =>
    cases r with
    | chain t left => exact fun m _ => h m.line
    | _ => trivial
  | properties before => exact fun _ _ m _ => h m.line
  | _ => trivial

/-! ## Steps -/

section
variable {α β : Type} {Q : α → Prop} {R : β → Prop} {p : Parse α} {f : α → Parse β}

/-- An answer without a step keeps the law. -/
theorem Keeps.pure {a : α} (h : Q a) : L.Keeps Q (pure a) :=
  fun _ hs => ⟨h, hs⟩

/-- The answer that there is no item keeps the law. -/
theorem Keeps.pure_none : L.Keeps (fun item => ∀ a ∈ item, Q a) (Pure.pure none) :=
  .pure fun _ h => absurd h (Option.not_mem_none _)

/-- An item with the property that is asked for keeps the law as an answer. -/
theorem Keeps.pure_some {a : α} (h : Q a) :
    L.Keeps (fun item => ∀ a ∈ item, Q a) (Pure.pure (some a)) :=
  .pure fun _ hmem => Option.mem_some_iff.1 hmem ▸ h

/-- Parsers that keep the law keep it one behind the other. -/
theorem Keeps.bind (hp : L.Keeps Q p) (hf : ∀ a, Q a → L.Keeps R (f a)) : L.Keeps R (p >>= f) := by
  intro s hs
  have hfirst := hp s hs
  cases h : p s with
  | ok a s₁ =>
    rw [h] at hfirst
    rw [bind_of_ok h]
    exact hf a hfirst.1 s₁ hfirst.2
  | error e s₁ =>
    rw [h] at hfirst
    rw [bind_of_error h]
    exact hfirst

/-- The lookahead of a stream of the law stands at an allowed line. -/
theorem Keeps.peek : L.Keeps (fun lexeme => L.line lexeme.line) peek :=
  fun _ hs => ⟨L.line_of_holds hs, hs⟩

/-- A new node at an allowed line keeps the law. -/
theorem Keeps.fresh {line : Nat} (h : L.line line) :
    L.Keeps (fun o => L.line o.line) (fresh line) :=
  fun _ hs => ⟨h, L.numbered hs⟩

/-- Leaving a construct keeps the law. -/
theorem Keeps.leave : L.Keeps (fun _ => True) (leave 1) :=
  fun _ hs => ⟨trivial, L.left hs⟩

/-- Taking a token keeps the law. -/
theorem Keeps.advance : L.Keeps (fun _ => True) advance := by
  intro s hs
  cases h : Parse.advance s with
  | ok lexeme s' => exact ⟨trivial, L.taken hs h⟩
  | error e s' => exact L.refused hs h

/-- A failure at an allowed line is one that the law allows. -/
theorem Keeps.fail {line : Nat} (fault : SyntaxFault) (h : L.line line) :
    L.Keeps Q (fail line fault) :=
  fun _ hs => L.unfit hs h

/-- A token that is not expected is reported at its own line, which is allowed. -/
theorem Keeps.unexpected (expected construct : String) :
    L.Keeps Q (unexpected expected construct) :=
  Keeps.peek.bind fun _ hline => .fail _ hline

/-- Entering a construct keeps the law, also where the nesting is too deep for it. -/
theorem Keeps.enter (construct : String) : L.Keeps (fun _ => True) (enter construct) := by
  intro s hs
  by_cases hdepth : s.depth < maxDepth
  · have henter : Parse.enter construct s = .ok () s.deeper := congrFun (if_pos hdepth) s
    rw [henter]
    exact ⟨trivial, L.entered hs hdepth⟩
  · have henter : Parse.enter construct s = Parse.tooDeep construct s := congrFun (if_neg hdepth) s
    rw [henter]
    exact L.unfit hs (L.line_of_holds hs)

/-- Comparing the lookahead with a token keeps the law. -/
theorem Keeps.check (token : Token) : L.Keeps (fun _ => True) (check token) :=
  Keeps.peek.bind fun _ _ => .pure trivial

/-- Taking an optional token keeps the law. -/
theorem Keeps.eat (token : Token) : L.Keeps (fun _ => True) (eat token) := by
  refine (Keeps.check token).bind fun _ _ => ?_
  split
  · exact Keeps.advance.bind fun _ _ => .pure trivial
  · exact .pure trivial

/-- Demanding a token keeps the law. -/
theorem Keeps.expect (token : Token) (construct : String) :
    L.Keeps (fun _ => True) (expect token construct) := by
  refine (Keeps.check token).bind fun _ _ => ?_
  split
  · exact .advance
  · exact .unexpected _ _

/-- Demanding a mark keeps the law. -/
theorem Keeps.expectMark (mark : Mark) (construct : String) :
    L.Keeps (fun _ => True) (expectMark mark construct) :=
  (Keeps.expect _ construct).bind fun _ _ => .pure trivial

/-- Demanding a line end keeps the law. -/
theorem Keeps.expectNewline (construct : String) :
    L.Keeps (fun _ => True) (expectNewline construct) :=
  (Keeps.expect _ construct).bind fun _ _ => .pure trivial

/-- Demanding a keyword keeps the law. -/
theorem Keeps.expectKeyword (keyword : Keyword) (construct : String) :
    L.Keeps (fun _ => True) (expectKeyword keyword construct) :=
  (Keeps.expect _ construct).bind fun _ _ => .pure trivial

/-- Demanding a name keeps the law. -/
theorem Keeps.expectIdentifier (construct : String) :
    L.Keeps (fun _ => True) (expectIdentifier construct) := by
  refine Keeps.peek.bind fun _ _ => ?_
  split
  · exact Keeps.advance.bind fun _ _ => .pure trivial
  · exact .unexpected _ _

/-- A list of items, each of which has a property. -/
theorem Keeps.collect {item? : Parse (Option α)} {more : Parse (List α)}
    (h : L.Keeps (fun item => ∀ a ∈ item, Q a) item?)
    (hmore : L.Keeps (fun items => ∀ a ∈ items, Q a) more) :
    L.Keeps (fun items => ∀ a ∈ items, Q a) (collect item? more) := by
  refine h.bind fun item hitem => ?_
  cases item with
  | none => exact .pure (List.forall_mem_nil _)
  | some a =>
    exact hmore.bind fun items hitems => .pure (List.forall_mem_cons.2 ⟨hitem a rfl, hitems⟩)

/-- A state with a property that every step keeps. -/
theorem Keeps.proceed {step? : Parse (Option α)} {more : α → Parse α} {state : α}
    (h : L.Keeps (fun next => ∀ a ∈ next, Q a) step?) (hmore : ∀ a, Q a → L.Keeps Q (more a))
    (hstate : Q state) : L.Keeps Q (proceed step? more state) := by
  refine h.bind fun next hnext => ?_
  cases next with
  | none => exact .pure hstate
  | some a => exact hmore a (hnext a rfl)

end

/-- A new node at an allowed line, over parts at such lines. -/
theorem Keeps.node {line : Nat} {make : Origin → Node} (h : L.line line)
    (hline : ∀ o, (make o).line = o.line) (hparts : ∀ o, ∀ part ∈ (make o).children, L.Lined part) :
    L.Keeps L.Lined (Parse.fresh line >>= fun o => Pure.pure (make o)) :=
  (Keeps.fresh h).bind fun o ho => .pure (lined_iff.2 ⟨(hline o).symm ▸ ho, hparts o⟩)

/-- A new leaf has an allowed line if it is made at one. -/
theorem Keeps.leaf {line : Nat} {make : Origin → Node} (h : L.line line)
    (hline : ∀ o, (make o).line = o.line) (hleaf : ∀ o, (make o).children = []) :
    L.Keeps L.Lined (Parse.fresh line >>= fun o => Pure.pure (make o)) :=
  .node h hline fun o => (hleaf o).symm ▸ List.forall_mem_nil _

/-! ## Bodies of rules -/

section
variable {call : (r : Rule) → Parse r.Result}

/-- A call for a whole expression keeps the law. -/
theorem Serves.whole (hcall : L.Serves call) : L.Keeps L.Lined (call .whole) :=
  hcall .whole trivial

/-- A call for line ends keeps the law. -/
theorem Serves.lineEnds (hcall : L.Serves call) : L.Keeps (fun _ => True) (call .lineEnds) :=
  hcall .lineEnds trivial

/-- A call for a block keeps the law. -/
theorem Serves.block (hcall : L.Serves call) (construct : String) :
    L.Keeps L.Lined (call (.block construct)) :=
  hcall (.block construct) trivial

/-- A literal or a name has the line of its token. -/
theorem atom_keeps : L.Keeps L.Lined atom := by
  refine Keeps.peek.bind fun here hline => ?_
  split
  · exact Keeps.advance.bind fun _ _ => .leaf hline (fun _ => rfl) fun _ => rfl
  · exact Keeps.advance.bind fun _ _ => .leaf hline (fun _ => rfl) fun _ => rfl
  · exact Keeps.advance.bind fun _ _ => .leaf hline (fun _ => rfl) fun _ => rfl
  · exact Keeps.advance.bind fun _ _ => .leaf hline (fun _ => rfl) fun _ => rfl
  · refine (Keeps.eat _).bind fun _ _ => ?_
    split
    · refine (Keeps.expectMark _ _).bind fun _ _ => (Keeps.expectMark _ _).bind fun _ _ => ?_
      exact .leaf hline (fun _ => rfl) fun _ => rfl
    · exact .unexpected _ _

/-- A factor keeps the law: a prefix operator has the line of its sign. -/
theorem factor_keeps (hcall : L.Serves call) : L.Keeps L.Lined (Calling.factor call) := by
  refine Keeps.peek.bind fun here hline => ?_
  split
  · refine (Keeps.enter _).bind fun _ _ => Keeps.advance.bind fun _ _ =>
      hcall.whole.bind fun n hn => ?_
    exact (Keeps.expectMark _ _).bind fun _ _ => Keeps.leave.bind fun _ _ => .pure hn
  · split
    · exact atom_keeps
    · refine (Keeps.enter _).bind fun _ _ => Keeps.advance.bind fun _ _ => ?_
      refine (hcall (.expression .factor) trivial).bind fun n hn => Keeps.leave.bind fun _ _ => ?_
      exact .node hline (fun _ => rfl) fun _ => List.forall_mem_singleton.2 hn

/-- An expression of some tiers keeps the law if what it calls does. -/
theorem tiers_keeps (hcall : L.Serves call) (ts : List Tier) :
    L.Keeps L.Lined (Calling.tiers call ts) := by
  cases ts with
  | nil => exact hcall (.expression .factor) trivial
  | cons t ts =>
    exact (hcall (.expression (.tiers ts)) trivial).bind fun first hfirst =>
      hcall (.expression (.chain t first)) hfirst

/-- The operators of a tier keep the law: each has the line of its sign. -/
theorem chain_keeps (hcall : L.Serves call) (t : Tier) {left : Node} (hleft : L.Lined left) :
    L.Keeps L.Lined (Calling.chain call t left) := by
  refine Keeps.peek.bind fun here hline => ?_
  split
  next => exact .pure hleft
  next op _ =>
    refine (Keeps.enter _).bind fun _ _ => Keeps.advance.bind fun _ _ => ?_
    refine (hcall (.expression (.tiers t.tighter)) trivial).bind fun right hright => ?_
    refine (Keeps.fresh hline).bind fun o ho => ?_
    have hjoined : L.Lined (.binary o op left right) :=
      lined_iff.2 ⟨ho, forall_mem_pair hleft hright⟩
    refine (hcall (.expression (.chain t _)) hjoined).bind fun whole hwhole => ?_
    exact Keeps.leave.bind fun _ _ => .pure hwhole

/-- Line ends, one by one, keep the law. -/
theorem lineEnds_keeps (hcall : L.Serves call) :
    L.Keeps (fun _ => True) (Calling.lineEnds call) := by
  refine (Keeps.eat _).bind fun _ _ => ?_
  split
  · exact hcall.lineEnds
  · exact .pure trivial

/-- An item of an array has the line of its token. -/
theorem arrayItem_keeps : L.Keeps L.Lined arrayItem := by
  refine Keeps.peek.bind fun here hline => ?_
  split
  · exact Keeps.advance.bind fun _ _ => .leaf hline (fun _ => rfl) fun _ => rfl
  · exact Keeps.advance.bind fun _ _ => .leaf hline (fun _ => rfl) fun _ => rfl
  · exact .unexpected _ _

/-- An item of an array or its end keeps the law. -/
theorem arrayItem?_keeps (hcall : L.Serves call) :
    L.Keeps (fun item => ∀ n ∈ item, L.Lined n) (Calling.arrayItem? call) := by
  refine hcall.lineEnds.bind fun _ _ => (Keeps.eat _).bind fun closed _ => ?_
  split
  · exact .pure_none
  refine arrayItem_keeps.bind fun n hn => hcall.lineEnds.bind fun _ _ =>
    (Keeps.eat _).bind fun _ _ => ?_
  split
  · exact .pure_some hn
  refine (Keeps.check _).bind fun _ _ => ?_
  split
  · exact .pure_some hn
  · exact .unexpected _ _

/-- A value makes a property at every allowed line. -/
theorem value_keeps (hcall : L.Serves call) : L.Keeps (L.Fine .value) (Calling.value call) := by
  -- a literal is a leaf at its own line, and the only part of the property
  have hscalar : ∀ {line : Nat} {make : Origin → Node}, L.line line →
      (∀ o, (make o).line = o.line) → (∀ o, (make o).children = []) →
      L.Keeps (L.Fine .value) (Parse.fresh line >>= fun o => Pure.pure (.scalar (make o))) := by
    intro line make h hline hleaf
    refine (Keeps.fresh h).bind fun o ho => .pure fun o' key ho' => lined_iff.2 ⟨ho', ?_⟩
    refine List.forall_mem_singleton.2 (lined_iff.2 ⟨(hline o).symm ▸ ho, ?_⟩)
    exact (hleaf o).symm ▸ List.forall_mem_nil _
  refine Keeps.peek.bind fun here hline => ?_
  cases here.token with
  | text content => exact Keeps.advance.bind fun _ _ => hscalar hline (fun _ => rfl) fun _ => rfl
  | boolean b => exact Keeps.advance.bind fun _ _ => hscalar hline (fun _ => rfl) fun _ => rfl
  | integer k => exact Keeps.advance.bind fun _ _ => hscalar hline (fun _ => rfl) fun _ => rfl
  | mark m =>
    cases m with
    | openBracket =>
      refine (Keeps.expectMark _ _).bind fun _ _ =>
        (hcall .arrayItems trivial).bind fun items hitems => ?_
      exact .pure fun o key ho => lined_iff.2 ⟨ho, hitems⟩
    | _ => exact .unexpected _ _
  | _ => exact .unexpected _ _

/-- A property takes the place, and the line, of an earlier one with its key. -/
theorem putProperty_keeps {properties : List Node} {line : Nat} {value : PropertyValue}
    (key : String) (h : ∀ n ∈ properties, L.Lined n) (hline : L.line line)
    (hvalue : L.Fine .value value) :
    L.Keeps (fun properties => ∀ n ∈ properties, L.Lined n)
      (putProperty properties line key value) := by
  unfold putProperty
  split
  · refine .pure fun n hn => ?_
    obtain ⟨property, hmem, rfl⟩ := List.mem_map.1 hn
    split
    · exact hvalue _ key (lined_iff.1 (h property hmem)).1
    · exact h property hmem
  · refine (Keeps.fresh hline).bind fun o ho => .pure ?_
    exact List.forall_mem_append.2 ⟨h, List.forall_mem_singleton.2 (hvalue o key ho)⟩

/-- One more property keeps the law, wherever it is put among those before it. -/
theorem nextProperty?_keeps (hcall : L.Serves call) {properties : List Node}
    (h : ∀ n ∈ properties, L.Lined n) :
    L.Keeps (fun next => ∀ properties ∈ next, ∀ n ∈ properties, L.Lined n)
      (Calling.nextProperty? call properties) := by
  refine hcall.lineEnds.bind fun _ _ => (Keeps.eat _).bind fun closed _ => ?_
  split
  · exact .pure_none
  refine Keeps.peek.bind fun here hline => (Keeps.expectIdentifier _).bind fun key _ => ?_
  refine (Keeps.expectMark _ _).bind fun _ _ => (hcall .value trivial).bind fun value hvalue => ?_
  refine (putProperty_keeps key h hline hvalue).bind fun properties hproperties => ?_
  refine (Keeps.eat _).bind fun _ _ => ?_
  split
  · exact .pure_some hproperties
  refine (Keeps.check _).bind fun _ _ => ?_
  split
  · exact .pure_some hproperties
  refine (Keeps.check _).bind fun _ _ => ?_
  split
  · exact .pure_some hproperties
  · exact .unexpected _ _

/-- A field declaration keeps the law. -/
theorem field_keeps (hcall : L.Serves call) : L.Keeps L.Lined (Calling.field call) := by
  refine Keeps.peek.bind fun here hline => ?_
  split
  · refine Keeps.advance.bind fun _ _ => (Keeps.expectIdentifier _).bind fun name _ => ?_
    refine (Keeps.expectMark _ _).bind fun _ _ => ?_
    refine (hcall (.properties []) (List.forall_mem_nil _)).bind fun properties h => ?_
    exact .node hline (fun _ => rfl) fun _ => h
  · exact .unexpected _ _

/-- A line that prints keeps the law. -/
theorem print_keeps (hcall : L.Serves call) : L.Keeps L.Lined (Calling.print call) := by
  refine Keeps.peek.bind fun here hline => (Keeps.expectKeyword _ _).bind fun _ _ => ?_
  refine (Keeps.expectMark _ _).bind fun _ _ => hcall.whole.bind fun expr hexpr => ?_
  refine (Keeps.expectMark _ _).bind fun _ _ => (Keeps.expectNewline _).bind fun _ _ => ?_
  exact .node hline (fun _ => rfl) fun _ => List.forall_mem_singleton.2 hexpr

/-- The declaration of a variable keeps the law. -/
theorem declaration_keeps (hcall : L.Serves call) : L.Keeps L.Lined (Calling.declaration call) := by
  have hinit : L.Keeps (fun init => ∀ n ∈ init, L.Lined n) (Calling.init? call) := by
    refine (Keeps.eat _).bind fun _ _ => ?_
    split
    · exact hcall.whole.bind fun n hn => .pure_some hn
    · exact .pure_none
  refine Keeps.peek.bind fun here hline => (Keeps.expectKeyword _ _).bind fun _ _ => ?_
  refine (Keeps.expectIdentifier _).bind fun name _ => Keeps.peek.bind fun _ _ => ?_
  split
  · refine Keeps.advance.bind fun _ _ => hinit.bind fun init hinit => ?_
    refine (Keeps.expectNewline _).bind fun _ _ => .node hline (fun _ => rfl) fun _ n hn => ?_
    exact hinit n (Option.mem_toList.1 hn)
  · exact .unexpected _ _

/-- An assignment keeps the law. -/
theorem assignment_keeps (hcall : L.Serves call) : L.Keeps L.Lined (Calling.assignment call) := by
  refine Keeps.peek.bind fun here hline => (Keeps.expectIdentifier _).bind fun name _ => ?_
  refine (Keeps.fresh hline).bind fun o ho => (Keeps.expectMark _ _).bind fun _ _ => ?_
  refine hcall.whole.bind fun value hvalue => (Keeps.expectNewline _).bind fun _ _ => ?_
  have htarget : L.Lined (.ident o name) := lined_iff.2 ⟨ho, List.forall_mem_nil _⟩
  exact .node hline (fun _ => rfl) fun _ => forall_mem_pair htarget hvalue

/-- A loop keeps the law. -/
theorem loop_keeps (hcall : L.Serves call) : L.Keeps L.Lined (Calling.loop call) := by
  refine Keeps.peek.bind fun here hline => (Keeps.expectKeyword _ _).bind fun _ _ => ?_
  refine hcall.whole.bind fun condition hcondition => (hcall.block _).bind fun body hbody => ?_
  refine (Keeps.expectNewline _).bind fun _ _ => ?_
  exact .node hline (fun _ => rfl) fun _ => forall_mem_pair hcondition hbody

/-- A branch on a condition keeps the law. -/
theorem branch_keeps (hcall : L.Serves call) : L.Keeps L.Lined (Calling.branch call) := by
  have hotherwise :
      L.Keeps (fun negative => ∀ n ∈ negative, L.Lined n) (Calling.otherwise? call) := by
    refine (Keeps.eat _).bind fun _ _ => ?_
    split
    · exact (hcall.block _).bind fun n hn => .pure_some hn
    · exact .pure_none
  refine Keeps.peek.bind fun here hline => (Keeps.expectKeyword _ _).bind fun _ _ => ?_
  refine hcall.whole.bind fun condition hcondition => ?_
  refine (hcall.block _).bind fun positive hpositive => hotherwise.bind fun negative hnegative => ?_
  refine (Keeps.expectNewline _).bind fun _ _ => .node hline (fun _ => rfl) fun _ => ?_
  refine List.forall_mem_cons.2 ⟨hcondition, List.forall_mem_cons.2 ⟨hpositive, fun n hn => ?_⟩⟩
  exact hnegative n (Option.mem_toList.1 hn)

/-- A statement that a form does not admit is reported at its own line. -/
theorem checkFormBody_keeps {n : Node} (container : FormContainer) (h : L.Lined n) :
    L.Keeps (fun _ => True) (checkFormBody container n) := by
  unfold checkFormBody
  split
  · split
    next statement hfind =>
      have hpart := (lined_iff.1 h).2 statement (List.mem_of_find?_eq_some hfind)
      exact .fail _ (lined_iff.1 hpart).1
    next => exact .pure trivial
  · exact .pure trivial

/-- A child of a form or the end of the form keeps the law. -/
theorem formChild?_keeps (hcall : L.Serves call) :
    L.Keeps (fun child => ∀ n ∈ child, L.Lined n) (Calling.formChild? call) := by
  refine hcall.lineEnds.bind fun _ _ => (Keeps.eat _).bind fun closed _ => ?_
  split
  · exact .pure_none
  refine Keeps.peek.bind fun here hline => ?_
  split
  · refine Keeps.advance.bind fun _ _ => hcall.whole.bind fun condition hcondition => ?_
    refine (hcall.block _).bind fun body hbody => (checkFormBody_keeps _ hbody).bind fun _ _ => ?_
    refine (Keeps.fresh hline).bind fun o ho => .pure_some (lined_iff.2 ⟨ho, ?_⟩)
    exact forall_mem_pair hcondition hbody
  · refine Keeps.advance.bind fun _ _ => hcall.whole.bind fun condition hcondition => ?_
    refine (hcall.block _).bind fun body hbody => (checkFormBody_keeps _ hbody).bind fun _ _ => ?_
    refine (Keeps.fresh hline).bind fun o ho => .pure_some (lined_iff.2 ⟨ho, ?_⟩)
    exact forall_mem_pair hcondition hbody
  · exact (hcall .field trivial).bind fun n hn => .pure_some hn
  · exact .unexpected _ _

/-- A form declaration keeps the law. -/
theorem form_keeps (hcall : L.Serves call) : L.Keeps L.Lined (Calling.form call) := by
  refine Keeps.peek.bind fun here hline => (Keeps.expectKeyword _ _).bind fun _ _ => ?_
  refine (Keeps.expectIdentifier _).bind fun name _ => (Keeps.expectMark _ _).bind fun _ _ => ?_
  exact (hcall .children trivial).bind fun body hbody => .node hline (fun _ => rfl) fun _ => hbody

/-- A statement keeps the law, whichever one it is. -/
theorem statement_keeps (hcall : L.Serves call) : L.Keeps L.Lined (Calling.statement call) := by
  refine Keeps.peek.bind fun here hline => ?_
  split
  · exact (hcall .form trivial).bind fun n hn => (Keeps.eat _).bind fun _ _ => .pure hn
  · exact hcall .print trivial
  · exact hcall .declaration trivial
  · exact hcall .assignment trivial
  · exact hcall .loop trivial
  · exact hcall .branch trivial
  · exact Keeps.advance.bind fun _ _ => .leaf hline (fun _ => rfl) fun _ => rfl
  · exact .unexpected _ _

/-- A line of a block or the end of the block keeps the law. -/
theorem line?_keeps (hcall : L.Serves call) (construct : String) :
    L.Keeps (fun item => ∀ n ∈ item, L.Lined n) (Calling.line? call construct) := by
  refine (Keeps.eat _).bind fun closed _ => ?_
  split
  · exact .pure_none
  refine (Keeps.check _).bind fun _ _ => ?_
  split
  · exact .unexpected _ _
  refine Keeps.peek.bind fun _ _ => ?_
  split
  · exact (hcall .field trivial).bind fun n hn => .pure_some hn
  · exact (hcall .statement trivial).bind fun n hn => .pure_some hn

/-- A block keeps the law. -/
theorem block_keeps (hcall : L.Serves call) (construct : String) :
    L.Keeps L.Lined (Calling.block call construct) := by
  refine Keeps.peek.bind fun here hline => (Keeps.enter _).bind fun _ _ => ?_
  refine (Keeps.expectMark _ _).bind fun _ _ => (Keeps.expectNewline _).bind fun _ _ => ?_
  refine (hcall (.lines construct) trivial).bind fun body hbody => ?_
  exact Keeps.leave.bind fun _ _ => .node hline (fun _ => rfl) fun _ => hbody

/-- A whole program keeps the law. -/
theorem program_keeps (hcall : L.Serves call) : L.Keeps L.Lined (Calling.program call) := by
  refine hcall.lineEnds.bind fun _ _ => (hcall.block _).bind fun root hroot => ?_
  refine hcall.lineEnds.bind fun _ _ => Keeps.peek.bind fun here hline => ?_
  split
  · exact .pure hroot
  · exact .fail _ hline

/-- The body of every rule keeps the law if all calls in it do. -/
theorem body_keeps (hcall : L.Serves call) : L.Serves (Rule.body call) := by
  intro r hready
  cases r with
  | expression r =>
    cases r with
    | factor => exact factor_keeps hcall
    | tiers ts => exact tiers_keeps hcall ts
    | chain t left => exact chain_keeps hcall t hready
  | lineEnds => exact lineEnds_keeps hcall
  | arrayItems => exact .collect (arrayItem?_keeps hcall) (hcall .arrayItems trivial)
  | value => exact value_keeps hcall
  | properties before =>
    exact .proceed (nextProperty?_keeps hcall hready) (fun now hnow =>
      hcall (.properties now) hnow) hready
  | field => exact field_keeps hcall
  | print => exact print_keeps hcall
  | declaration => exact declaration_keeps hcall
  | assignment => exact assignment_keeps hcall
  | loop => exact loop_keeps hcall
  | branch => exact branch_keeps hcall
  | children => exact .collect (formChild?_keeps hcall) (hcall .children trivial)
  | form => exact form_keeps hcall
  | statement => exact statement_keeps hcall
  | lines construct =>
    exact .collect (line?_keeps hcall construct) (hcall (.lines construct) trivial)
  | block construct => exact block_keeps hcall construct
  | program => exact program_keeps hcall

end

/-! ## Rules -/

/-- Calls that would nest too deep for the text fail at once. -/
theorem nested_keeps (n : Nat) : L.Serves (Rule.nested (fun _ => Parse.unexpected "" "") n) := by
  induction n with
  | zero => exact fun _ _ => .unexpected "" ""
  | succ n ih => exact body_keeps ih

/-- A rule keeps every law on a stream that ends. -/
theorem run_keeps {r : Rule} {s : TokenStream} (hready : L.Ready r) (hended : s.Ended)
    (hs : L.holds s) : L.Allows (L.Fine r) (r.run s) := by
  rw [← Rule.nested_eq_run (fun _ => Parse.unexpected "" "") hended (Nat.lt_succ_self _)]
  exact nested_keeps _ r hready s hs

end Parse.Law

/-! ## Contracts -/

/-- What holds of readings, lines and errors throughout a parse. -/
structure Parse.Contract where
  /-- What a stream still has to offer, the lookahead first. -/
  offers : List Reading → Prop
  line : Nat → Prop
  reports : ParseError → Prop
  line_of_offers : ∀ {lexeme readings}, offers (.ok lexeme :: readings) → line lexeme.line
  offers_of_taken : ∀ {lexeme readings}, offers (.ok lexeme :: readings) → offers readings
  reports_of_refused : ∀ {e readings}, offers (.error e :: readings) → reports (.lexical e)
  reports_of_line : ∀ {n fault}, line n → reports (.grammar ⟨n, fault⟩)

namespace Parse.Contract

variable (C : Contract)

/-- All lines of a tree are allowed. -/
def Lined (n : Node) : Prop :=
  ∀ m ∈ n.walk, C.line m.line

/-- The law of a contract. -/
def law : Law where
  holds s := C.offers s.pending
  line := C.line
  fails e _ := C.reports e
  line_of_holds := C.line_of_offers
  taken {s} _ _ hs h := by
    obtain ⟨-, ⟨-, rfl⟩ | ⟨lexeme, ahead, hahead, rfl⟩⟩ := advance_cases h
    · exact hs
    · rw [TokenStream.pending, hahead] at hs
      exact C.offers_of_taken hs
  refused {s} _ _ hs h := by
    obtain ⟨fault, ahead, hahead, rfl, -⟩ := advance_error h
    rw [TokenStream.pending, hahead] at hs
    exact C.reports_of_refused (C.offers_of_taken hs)
  unfit _ hline := C.reports_of_line hline
  entered hs _ := hs
  left hs := hs
  numbered hs := hs

variable {C} {source : String}

/-- All nodes of a tree are at lines that the contract allows. -/
theorem parse_ok {root : Node}
    (hoffers : C.offers (Scanner.ofText (Text.stripComments source)).readings)
    (h : parse source = .ok root) : C.Lined root := by
  obtain ⟨s, s', hstream, hprogram⟩ := program_of_parse_ok h
  rw [← (TokenStream.ofText_ok hstream).1] at hoffers
  have hallows : C.law.Allows C.law.Lined (program s) :=
    Law.run_keeps (r := .program) trivial (TokenStream.ended_of_ofText hstream) hoffers
  rw [hprogram] at hallows
  exact hallows.1

/-- A parse fails as the contract allows. -/
theorem parse_error {e : ParseError}
    (hoffers : C.offers (Scanner.ofText (Text.stripComments source)).readings)
    (h : parse source = .error e) : C.reports e := by
  rcases program_of_parse_error h with hstream | ⟨s, s', hstream, hprogram⟩
  · obtain ⟨fault, ahead, hreadings, rfl⟩ := TokenStream.ofText_error hstream
    rw [hreadings] at hoffers
    exact C.reports_of_refused hoffers
  · rw [← (TokenStream.ofText_ok hstream).1] at hoffers
    have hallows : C.law.Allows C.law.Lined (program s) :=
      Law.run_keeps (r := .program) trivial (TokenStream.ended_of_ofText hstream) hoffers
    rw [hprogram] at hallows
    exact hallows

end Parse.Contract

end FormScript
