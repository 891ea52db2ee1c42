import FormScript.Proofs.Termination

/-!
# The numbers of nodes do not matter

A rule numbers the nodes that it makes from where the stream's count stands, and looks at no number.
So from two streams that differ in their counts only, it gives the same tree up to numbers or fails
with the same error, and leaves streams that again differ in their counts only
(`Rule.run_unnumbered`). `Parse.Agree view p q` says this of two parsers, whose answers are compared
through `view`: a chain of operators and the properties of a field go on from nodes that were read
before, which have other numbers on either side.
-/

namespace FormScript

/-! ## Trees and streams without numbers -/

/-- An origin without its number. -/
def Origin.unnumbered (o : Origin) : Origin :=
  { o with id := 0 }

namespace Node

mutual

/-- A tree without the numbers of its nodes. -/
def unnumbered : Node → Node
  | int o k => int o.unnumbered k
  | str o content => str o.unnumbered content
  | bool o b => bool o.unnumbered b
  | ident o name => ident o.unnumbered name
  | unary o op operand => unary o.unnumbered op operand.unnumbered
  | binary o op left right => binary o.unnumbered op left.unnumbered right.unnumbered
  | block o body => block o.unnumbered (unnumberedAll body)
  | assign o target value => assign o.unnumbered target.unnumbered value.unnumbered
  | declare o name type none => declare o.unnumbered name type none
  | declare o name type (some init) => declare o.unnumbered name type (some init.unnumbered)
  | branch o condition positive none =>
    branch o.unnumbered condition.unnumbered positive.unnumbered none
  | branch o condition positive (some negative) =>
    branch o.unnumbered condition.unnumbered positive.unnumbered (some negative.unnumbered)
  | loop o condition body => loop o.unnumbered condition.unnumbered body.unnumbered
  | print o expr => print o.unnumbered expr.unnumbered
  | scan o => scan o.unnumbered
  | field o kind name properties => field o.unnumbered kind name (unnumberedAll properties)
  | scalar o key value => scalar o.unnumbered key value.unnumbered
  | array o key items => array o.unnumbered key (unnumberedAll items)
  | form o name body => form o.unnumbered name (unnumberedAll body)
  | blank o => blank o.unnumbered

/-- `unnumbered` for neighbours. -/
def unnumberedAll : List Node → List Node
  | [] => []
  | n :: ns => n.unnumbered :: unnumberedAll ns

end

/-- Neighbours lose their numbers one by one. -/
theorem unnumberedAll_eq_map (ns : List Node) : unnumberedAll ns = ns.map unnumbered := by
  induction ns with
  | nil => rfl
  | cons n ns ih => rw [unnumberedAll, ih, List.map_cons]

/-- A declaration loses its number and those in its start value. -/
theorem unnumbered_declare (o : Origin) (name : String) (type : Ty) (init : Option Node) :
    (declare o name type init).unnumbered = declare o.unnumbered name type
      (init.map unnumbered) := by
  cases init <;> rfl

/-- A branch loses its number and those in its parts. -/
theorem unnumbered_branch (o : Origin) (condition positive : Node) (negative : Option Node) :
    (branch o condition positive negative).unnumbered =
      branch o.unnumbered condition.unnumbered positive.unnumbered (negative.map unnumbered) := by
  cases negative <;> rfl

/-- A tree without numbers has the origin of the tree without its number. -/
theorem origin_unnumbered (n : Node) : n.unnumbered.origin = n.origin.unnumbered := by
  cases n with
  | declare _ _ _ init => cases init <;> rfl
  | branch _ _ _ negative => cases negative <;> rfl
  | _ => rfl

/-- A tree without numbers keeps its line. -/
theorem line_unnumbered (n : Node) : n.unnumbered.line = n.line := by
  rw [line, origin_unnumbered]
  rfl

/-- A tree without numbers is described as before. -/
theorem describe_unnumbered (n : Node) : n.unnumbered.describe = n.describe := by
  cases n with
  | declare _ _ _ init => cases init <;> rfl
  | branch _ _ _ negative => cases negative <;> rfl
  | _ => rfl

end Node

namespace Grammar

/-- The key of a property does not depend on numbers. -/
theorem propertyKey?_unnumbered (n : Node) : propertyKey? n.unnumbered = propertyKey? n := by
  cases n with
  | declare _ _ _ init => cases init <;> rfl
  | branch _ _ _ negative => cases negative <;> rfl
  | _ => rfl

/-- Whether a form admits a line does not depend on numbers. -/
theorem FormContainer.admits_unnumbered (container : FormContainer) (n : Node) :
    container.admits n.unnumbered = container.admits n := by
  cases n with
  | declare _ _ _ init => cases init <;> rfl
  | branch _ _ _ negative => cases negative <;> rfl
  | _ => rfl

/-- A value without the numbers of its nodes. -/
def PropertyValue.unnumbered : PropertyValue → PropertyValue
  | scalar value => scalar value.unnumbered
  | array items => array (items.map Node.unnumbered)

/-- A property loses its number and those in its value. -/
theorem PropertyValue.unnumbered_toNode (value : PropertyValue) (o : Origin) (key : String) :
    (value.toNode o key).unnumbered = value.unnumbered.toNode o.unnumbered key := by
  cases value with
  | scalar value => rfl
  | array items =>
    rw [unnumbered, toNode, toNode, Node.unnumbered, Node.unnumberedAll_eq_map]

/-- A form does not look at the numbers of its statements. -/
theorem checkFormBody_unnumbered (container : FormContainer) (n : Node) :
    checkFormBody container n.unnumbered = checkFormBody container n := by
  cases n with
  | declare _ _ _ init => cases init <;> rfl
  | branch _ _ _ negative => cases negative <;> rfl
  | block o body =>
    have hfind : (body.map Node.unnumbered).find? (fun statement => !container.admits statement) =
        (body.find? fun statement => !container.admits statement).map Node.unnumbered := by
      simp only [List.find?_map, Function.comp_def, FormContainer.admits_unnumbered]
    rw [Node.unnumbered, Node.unnumberedAll_eq_map, checkFormBody, checkFormBody, hfind]
    cases body.find? fun statement => !container.admits statement with
    | none => rfl
    | some statement =>
      simp only [Option.map_some, Node.line_unnumbered, Node.describe_unnumbered]
  | _ => rfl

end Grammar

/-- A stream without its count of nodes. -/
def TokenStream.unnumbered (s : TokenStream) : TokenStream :=
  { s with nextId := 0 }

/-! ## Parsers that agree -/

namespace Parse

/-- A result without the numbers of nodes, with its answer seen through `view`. -/
def seen {α β : Type} (view : α → β) :
    EStateM.Result ParseError TokenStream α → EStateM.Result ParseError TokenStream β
  | .ok a s => .ok (view a) s.unnumbered
  | .error e s => .error e s.unnumbered

/-- From streams that differ in their counts only, two parsers give the same as far as can be
seen. -/
def Agree {α β : Type} (view : α → β) (p q : Parse α) : Prop :=
  ∀ s s' : TokenStream, s.unnumbered = s'.unnumbered → seen view (p s) = seen view (q s')

section
variable {α β γ δ : Type} {view : α → β} {view' : γ → δ} {p q : Parse α} {f g : α → Parse γ}
  {a a' : α}

/-- Answers that look alike agree. -/
theorem Agree.pure (h : view a = view a') : Agree view (pure a) (pure a') := by
  intro s s' hs
  show EStateM.Result.ok (view a) s.unnumbered = .ok (view a') s'.unnumbered
  rw [h, hs]

/-- Parsers agree one behind the other, if the second ones do for answers that look alike. -/
theorem Agree.bind (hp : Agree view p q)
    (hf : ∀ a a', view a = view a' → Agree view' (f a) (g a')) :
    Agree view' (p >>= f) (q >>= g) := by
  intro s s' hs
  have hfirst := hp s s' hs
  cases hps : p s with
  | ok a s₁ =>
    cases hqs : q s' with
    | ok a' s₁' =>
      rw [hps, hqs] at hfirst
      obtain ⟨ha, hs₁⟩ := EStateM.Result.ok.inj hfirst
      rw [bind_of_ok hps, bind_of_ok hqs]
      exact hf a a' ha s₁ s₁' hs₁
    | error e s₁' =>
      rw [hps, hqs] at hfirst
      cases hfirst
  | error e s₁ =>
    cases hqs : q s' with
    | ok a' s₁' =>
      rw [hps, hqs] at hfirst
      cases hfirst
    | error e' s₁' =>
      rw [hps, hqs] at hfirst
      obtain ⟨rfl, hs₁⟩ := EStateM.Result.error.inj hfirst
      rw [bind_of_error hps, bind_of_error hqs]
      exact congrArg (EStateM.Result.error e) hs₁

/-- Parsers with the same answers in front of others. -/
theorem Agree.next (hp : Agree id p q) (hf : ∀ a, Agree view' (f a) (g a)) :
    Agree view' (p >>= f) (q >>= g) := by
  refine hp.bind fun a a' ha => ?_
  obtain rfl : a = a' := ha
  exact hf a

/-- Parsers in front of others that go on with what was found, or without. -/
theorem Agree.bind_option {p q : Parse (Option α)} {f g : Option α → Parse γ}
    (hp : Agree (Option.map view) p q) (hnone : Agree view' (f none) (g none))
    (hsome : ∀ a a', view a = view a' → Agree view' (f (some a)) (g (some a'))) :
    Agree view' (p >>= f) (q >>= g) := by
  refine hp.bind fun found found' h => ?_
  cases found with
  | none =>
    cases found' with
    | none => exact hnone
    | some a' => cases h
  | some a =>
    cases found' with
    | none => cases h
    | some a' => exact hsome a a' (Option.some.inj h)

/-- A step that does the same to streams that differ in their counts only. -/
theorem Agree.of_eq
    (h : ∀ (s : TokenStream) (n : Nat), seen view (p { s with nextId := n }) = seen view (p s)) :
    Agree view p p := by
  intro s s' hs
  obtain ⟨current, ahead, n, depth⟩ := s
  obtain ⟨current', ahead', n', depth'⟩ := s'
  obtain ⟨rfl, rfl, -, rfl⟩ := TokenStream.mk.inj hs
  exact h ⟨current, ahead, n', depth⟩ n

/-- The lookahead does not depend on the count of nodes. -/
theorem Agree.peek : Agree id peek peek :=
  .of_eq fun _ _ => rfl

/-- Taking a token does not depend on the count of nodes. -/
theorem Agree.advance : Agree id advance advance := by
  refine .of_eq fun s n => ?_
  obtain ⟨current, ahead, n', depth⟩ := s
  cases ahead with
  | nil => rfl
  | cons reading ahead => cases reading <;> rfl

/-- The origin of a new node depends on the count of nodes in its number only. -/
theorem Agree.fresh (line : Nat) : Agree Origin.unnumbered (fresh line) (fresh line) :=
  .of_eq fun _ _ => rfl

/-- Leaving a construct does not depend on the count of nodes. -/
theorem Agree.leave : Agree id (leave 1) (leave 1) :=
  .of_eq fun _ _ => rfl

/-- Entering a construct does not depend on the count of nodes. -/
theorem Agree.enter (construct : String) : Agree id (enter construct) (enter construct) := by
  refine .of_eq fun s n => ?_
  by_cases h : s.depth < maxDepth
  · have henter : ∀ s : TokenStream, s.depth < maxDepth →
        Parse.enter construct s = .ok () s.deeper :=
      fun s h => congrFun (if_pos h) s
    exact (congrArg (seen id) (henter { s with nextId := n } h)).trans
      (congrArg (seen id) (henter s h)).symm
  · have henter : ∀ s : TokenStream, ¬ s.depth < maxDepth →
        Parse.enter construct s = Parse.tooDeep construct s :=
      fun s h => congrFun (if_neg h) s
    exact (congrArg (seen id) (henter { s with nextId := n } h)).trans
      (congrArg (seen id) (henter s h)).symm

/-- A failure does not depend on the count of nodes. -/
theorem Agree.fail (line : Nat) (fault : SyntaxFault) :
    Agree view (fail line fault) (fail line fault) :=
  .of_eq fun _ _ => rfl

/-- A token that is not expected is reported whatever the count of nodes. -/
theorem Agree.unexpected (expected construct : String) :
    Agree view (unexpected expected construct) (unexpected expected construct) :=
  .of_eq fun _ _ => rfl

/-- Comparing the lookahead does not depend on the count of nodes. -/
theorem Agree.check (token : Token) : Agree id (check token) (check token) :=
  .of_eq fun _ _ => rfl

/-- Taking an optional token does not depend on the count of nodes. -/
theorem Agree.eat (token : Token) : Agree id (eat token) (eat token) := by
  refine (Agree.check token).next fun found => ?_
  cases found with
  | true => exact Agree.advance.next fun _ => .pure rfl
  | false => exact .pure rfl

/-- Demanding a token does not depend on the count of nodes. -/
theorem Agree.expect (token : Token) (construct : String) :
    Agree id (expect token construct) (expect token construct) := by
  refine (Agree.check token).next fun found => ?_
  cases found with
  | true => exact .advance
  | false => exact .unexpected _ _

/-- Demanding a mark does not depend on the count of nodes. -/
theorem Agree.expectMark (mark : Mark) (construct : String) :
    Agree id (expectMark mark construct) (expectMark mark construct) :=
  (Agree.expect _ construct).next fun _ => .pure rfl

/-- Demanding a line end does not depend on the count of nodes. -/
theorem Agree.expectNewline (construct : String) :
    Agree id (expectNewline construct) (expectNewline construct) :=
  (Agree.expect _ construct).next fun _ => .pure rfl

/-- Demanding a keyword does not depend on the count of nodes. -/
theorem Agree.expectKeyword (keyword : Keyword) (construct : String) :
    Agree id (expectKeyword keyword construct) (expectKeyword keyword construct) :=
  (Agree.expect _ construct).next fun _ => .pure rfl

/-- Demanding a name does not depend on the count of nodes. -/
theorem Agree.expectIdentifier (construct : String) :
    Agree id (expectIdentifier construct) (expectIdentifier construct) := by
  refine Agree.peek.next fun here => ?_
  split
  · exact Agree.advance.next fun _ => .pure rfl
  · exact .unexpected _ _

end

/-- New nodes over parts that differ in numbers only. -/
theorem Agree.node {line : Nat} {make make' : Origin → Node}
    (h : ∀ o o', o.unnumbered = o'.unnumbered → (make o).unnumbered = (make' o').unnumbered) :
    Agree Node.unnumbered (Parse.fresh line >>= fun o => Pure.pure (make o))
      (Parse.fresh line >>= fun o => Pure.pure (make' o)) :=
  (Agree.fresh line).bind fun o o' ho => .pure (h o o' ho)

/-- New nodes without parts. -/
theorem Agree.leaf {line : Nat} {make : Origin → Node}
    (h : ∀ o, (make o).unnumbered = make o.unnumbered) :
    Agree Node.unnumbered (Parse.fresh line >>= fun o => Pure.pure (make o))
      (Parse.fresh line >>= fun o => Pure.pure (make o)) :=
  .node fun o o' ho => by rw [h, h, ho]

end Parse

/-! ## Bodies of rules -/

namespace Grammar

open Parse

/-- The answer of a rule without the numbers of its nodes. -/
def Rule.view : (r : Rule) → r.Result → r.Result
  | .lineEnds => id
  | .arrayItems | .properties _ | .children | .lines _ => List.map Node.unnumbered
  | .value => PropertyValue.unnumbered
  | .expression _ | .field | .print | .declaration | .assignment | .loop | .branch | .form
  | .statement | .block _ | .program => Node.unnumbered

/-- Calls agree, also where rules are given nodes that differ in their numbers only. -/
structure Unnumbered (call : (r : Rule) → Parse r.Result) : Prop where
  same : ∀ r, Agree r.view (call r) (call r)
  chain : ∀ {t left left'}, left.unnumbered = left'.unnumbered →
    Agree Node.unnumbered (call (.expression (.chain t left))) (call (.expression (.chain t left')))
  properties : ∀ {before before'}, before.map Node.unnumbered = before'.map Node.unnumbered →
    Agree (List.map Node.unnumbered) (call (.properties before)) (call (.properties before'))

section
variable {call : (r : Rule) → Parse r.Result}

/-- A call for line ends agrees with itself. -/
theorem Unnumbered.lineEnds (hcall : Unnumbered call) :
    Agree id (call .lineEnds) (call .lineEnds) :=
  hcall.same .lineEnds

/-- A call for an expression agrees with itself. -/
theorem Unnumbered.expression (hcall : Unnumbered call) (r : ExpressionRule) :
    Agree Node.unnumbered (call (.expression r)) (call (.expression r)) :=
  hcall.same (.expression r)

/-- A call for a block agrees with itself. -/
theorem Unnumbered.block (hcall : Unnumbered call) (construct : String) :
    Agree Node.unnumbered (call (.block construct)) (call (.block construct)) :=
  hcall.same (.block construct)

/-- A literal or a name agrees with itself. -/
theorem atom_agree : Agree Node.unnumbered atom atom := by
  refine Agree.peek.next fun here => ?_
  split
  · exact Agree.advance.next fun _ => .leaf fun _ => rfl
  · exact Agree.advance.next fun _ => .leaf fun _ => rfl
  · exact Agree.advance.next fun _ => .leaf fun _ => rfl
  · exact Agree.advance.next fun _ => .leaf fun _ => rfl
  · refine (Agree.eat _).next fun eaten => ?_
    cases eaten with
    | true =>
      refine (Agree.expectMark _ _).next fun _ => (Agree.expectMark _ _).next fun _ => ?_
      exact .leaf fun _ => rfl
    | false => exact .unexpected _ _

/-- A factor agrees with itself if its calls do. -/
theorem factor_agree (hcall : Unnumbered call) :
    Agree Node.unnumbered (Calling.factor call) (Calling.factor call) := by
  refine Agree.peek.next fun here => ?_
  split
  · refine (Agree.enter _).next fun _ => Agree.advance.next fun _ =>
      (hcall.expression _).bind fun n n' hn => ?_
    exact (Agree.expectMark _ _).next fun _ => Agree.leave.next fun _ => .pure hn
  · split
    · exact atom_agree
    · refine (Agree.enter _).next fun _ => Agree.advance.next fun _ =>
        (hcall.expression _).bind fun n n' hn => ?_
      refine Agree.leave.next fun _ => .node fun o o' ho => ?_
      rw [Node.unnumbered, ho, hn, Node.unnumbered]

/-- An expression of some tiers agrees with itself if its calls do. -/
theorem tiers_agree (hcall : Unnumbered call) (ts : List Tier) :
    Agree Node.unnumbered (Calling.tiers call ts) (Calling.tiers call ts) := by
  cases ts with
  | nil => exact hcall.expression .factor
  | cons t ts =>
    exact (hcall.expression (.tiers ts)).bind fun first first' hfirst => hcall.chain hfirst

/-- The operators of a tier agree behind left operands that look alike. -/
theorem chain_agree (hcall : Unnumbered call) (t : Tier) {left left' : Node}
    (hleft : left.unnumbered = left'.unnumbered) :
    Agree Node.unnumbered (Calling.chain call t left) (Calling.chain call t left') := by
  refine Agree.peek.next fun here => ?_
  cases t.operator? here.token with
  | none => exact .pure hleft
  | some op =>
    refine (Agree.enter _).next fun _ => Agree.advance.next fun _ => ?_
    refine (hcall.expression (.tiers t.tighter)).bind fun right right' hright => ?_
    refine (Agree.fresh _).bind fun o o' ho => ?_
    have hjoined :
        (Node.binary o op left right).unnumbered = (Node.binary o' op left' right').unnumbered := by
      rw [Node.unnumbered, ho, hleft, hright, Node.unnumbered]
    exact (hcall.chain hjoined).bind fun whole whole' hwhole =>
      Agree.leave.next fun _ => .pure hwhole

/-- Line ends, one by one, agree with themselves if calls do. -/
theorem lineEnds_agree (hcall : Unnumbered call) :
    Agree id (Calling.lineEnds call) (Calling.lineEnds call) := by
  refine (Agree.eat _).next fun eaten => ?_
  cases eaten with
  | true => exact hcall.lineEnds
  | false => exact .pure rfl

/-- An item of an array agrees with itself. -/
theorem arrayItem_agree : Agree Node.unnumbered arrayItem arrayItem := by
  refine Agree.peek.next fun here => ?_
  split
  · exact Agree.advance.next fun _ => .leaf fun _ => rfl
  · exact Agree.advance.next fun _ => .leaf fun _ => rfl
  · exact .unexpected _ _

/-- An item of an array or its end agrees with itself if calls do. -/
theorem arrayItem?_agree (hcall : Unnumbered call) :
    Agree (Option.map Node.unnumbered) (Calling.arrayItem? call) (Calling.arrayItem? call) := by
  refine hcall.lineEnds.next fun _ => (Agree.eat _).next fun closed => ?_
  cases closed with
  | true => exact .pure rfl
  | false =>
    refine arrayItem_agree.bind fun n n' hn => hcall.lineEnds.next fun _ =>
      (Agree.eat _).next fun eaten => ?_
    have hitem : (some n).map Node.unnumbered = (some n').map Node.unnumbered := congrArg some hn
    cases eaten with
    | true => exact .pure hitem
    | false =>
      refine (Agree.check _).next fun found => ?_
      cases found with
      | true => exact .pure hitem
      | false => exact .unexpected _ _

/-- The value of a property agrees with itself if calls do. -/
theorem value_agree (hcall : Unnumbered call) :
    Agree PropertyValue.unnumbered (Calling.value call) (Calling.value call) := by
  have hscalar : ∀ {line : Nat} {make : Origin → Node},
      (∀ o, (make o).unnumbered = make o.unnumbered) →
      Agree PropertyValue.unnumbered (Parse.fresh line >>= fun o => Pure.pure (.scalar (make o)))
        (Parse.fresh line >>= fun o => Pure.pure (.scalar (make o))) :=
    fun h => (Agree.fresh _).bind fun o o' ho =>
    .pure (congrArg PropertyValue.scalar (by rw [h, h, ho]))
  refine Agree.peek.next fun here => ?_
  cases here.token with
  | text content =>
    exact Agree.advance.next fun _ => hscalar fun _ => rfl
  | boolean b =>
    exact Agree.advance.next fun _ => hscalar fun _ => rfl
  | integer k =>
    exact Agree.advance.next fun _ => hscalar fun _ => rfl
  | mark m =>
    cases m with
    | openBracket =>
      refine (Agree.expectMark _ _).next fun _ =>
        (hcall.same .arrayItems).bind fun items items' hitems => ?_
      exact .pure (congrArg PropertyValue.array hitems)
    | _ => exact .unexpected _ _
  | _ => exact .unexpected _ _

/-- Properties that differ in numbers only are put in the same places. -/
theorem putProperty_agree {before before' : List Node} {value value' : PropertyValue} (line : Nat)
    (key : String) (h : before.map Node.unnumbered = before'.map Node.unnumbered)
    (hvalue : value.unnumbered = value'.unnumbered) :
    Agree (List.map Node.unnumbered) (putProperty before line key value)
      (putProperty before' line key value') := by
  have hany : ∀ ns : List Node, ns.any (propertyKey? · = some key) =
      (ns.map Node.unnumbered).any (propertyKey? · = some key) := by
    intro ns
    simp only [List.any_map, Function.comp_def, propertyKey?_unnumbered]
  have hput : ∀ (ns : List Node) (value : PropertyValue),
      (ns.map fun property => if propertyKey? property = some key then
          value.toNode property.origin key else property).map Node.unnumbered =
        (ns.map Node.unnumbered).map fun property => if propertyKey? property = some key then
          value.unnumbered.toNode property.origin key else property := by
    intro ns value
    rw [List.map_map, List.map_map]
    refine List.map_congr_left fun property _ => ?_
    simp only [Function.comp_apply, propertyKey?_unnumbered, Node.origin_unnumbered]
    split
    · exact value.unnumbered_toNode _ _
    · rfl
  unfold putProperty
  rw [hany before, hany before', h]
  split
  · exact .pure (by rw [hput, hput, h, hvalue])
  · refine (Agree.fresh line).bind fun o o' ho => .pure ?_
    rw [List.map_append, List.map_append, h, List.map_singleton, List.map_singleton,
      PropertyValue.unnumbered_toNode, PropertyValue.unnumbered_toNode, hvalue, ho]

/-- One more property agrees behind properties that look alike. -/
theorem nextProperty?_agree (hcall : Unnumbered call) {before before' : List Node}
    (h : before.map Node.unnumbered = before'.map Node.unnumbered) :
    Agree (Option.map (List.map Node.unnumbered)) (Calling.nextProperty? call before)
      (Calling.nextProperty? call before') := by
  refine hcall.lineEnds.next fun _ => (Agree.eat _).next fun closed => ?_
  cases closed with
  | true => exact .pure rfl
  | false =>
    refine Agree.peek.next fun here => (Agree.expectIdentifier _).next fun key => ?_
    refine (Agree.expectMark _ _).next fun _ => (hcall.same .value).bind fun value value' hvalue =>
      ?_
    refine (putProperty_agree _ key h hvalue).bind fun now now' hnow =>
      (Agree.eat _).next fun eaten => ?_
    have hnext :
        (some now).map (List.map Node.unnumbered) = (some now').map (List.map Node.unnumbered) :=
      congrArg some hnow
    cases eaten with
    | true => exact .pure hnext
    | false =>
      refine (Agree.check _).next fun found => ?_
      cases found with
      | true => exact .pure hnext
      | false =>
        refine (Agree.check _).next fun found => ?_
        cases found with
        | true => exact .pure hnext
        | false => exact .unexpected _ _

/-- A field declaration agrees with itself if its calls do. -/
theorem field_agree (hcall : Unnumbered call) :
    Agree Node.unnumbered (Calling.field call) (Calling.field call) := by
  refine Agree.peek.next fun here => ?_
  split
  · refine Agree.advance.next fun _ => (Agree.expectIdentifier _).next fun name => ?_
    refine (Agree.expectMark _ _).next fun _ =>
      (hcall.properties rfl).bind fun properties properties' h => ?_
    exact .node fun o o' ho => by
      rw [Node.unnumbered, Node.unnumbered, Node.unnumberedAll_eq_map,
        Node.unnumberedAll_eq_map, ho, h]
  · exact .unexpected _ _

/-- A line that prints agrees with itself if its calls do. -/
theorem print_agree (hcall : Unnumbered call) :
    Agree Node.unnumbered (Calling.print call) (Calling.print call) := by
  refine Agree.peek.next fun here => (Agree.expectKeyword _ _).next fun _ =>
    (Agree.expectMark _ _).next fun _ => ?_
  refine (hcall.expression _).bind fun expr expr' hexpr => (Agree.expectMark _ _).next fun _ => ?_
  exact (Agree.expectNewline _).next fun _ => .node fun o o' ho => by
    rw [Node.unnumbered, ho, hexpr, Node.unnumbered]

/-- The declaration of a variable agrees with itself if its calls do. -/
theorem declaration_agree (hcall : Unnumbered call) :
    Agree Node.unnumbered (Calling.declaration call) (Calling.declaration call) := by
  have hinit : Agree (Option.map Node.unnumbered) (Calling.init? call) (Calling.init? call) := by
    refine (Agree.eat _).next fun eaten => ?_
    cases eaten with
    | true => exact (hcall.expression _).bind fun n n' hn => .pure (congrArg some hn)
    | false => exact .pure rfl
  refine Agree.peek.next fun here => (Agree.expectKeyword _ _).next fun _ => ?_
  refine (Agree.expectIdentifier _).next fun name => Agree.peek.next fun sort => ?_
  split
  · refine Agree.advance.next fun _ => hinit.bind fun init init' hinit => ?_
    exact (Agree.expectNewline _).next fun _ => .node fun o o' ho => by
      rw [Node.unnumbered_declare, ho, hinit, Node.unnumbered_declare]
  · exact .unexpected _ _

/-- An assignment agrees with itself if its calls do. -/
theorem assignment_agree (hcall : Unnumbered call) :
    Agree Node.unnumbered (Calling.assignment call) (Calling.assignment call) := by
  refine Agree.peek.next fun here => (Agree.expectIdentifier _).next fun name => ?_
  refine (Agree.fresh _).bind fun target target' htarget => (Agree.expectMark _ _).next fun _ => ?_
  refine (hcall.expression _).bind fun value value' hvalue => (Agree.expectNewline _).next fun _ =>
    ?_
  exact .node fun o o' ho => by
    rw [Node.unnumbered, Node.unnumbered, ho, htarget, hvalue, Node.unnumbered, Node.unnumbered]

/-- A loop agrees with itself if its calls do. -/
theorem loop_agree (hcall : Unnumbered call) :
    Agree Node.unnumbered (Calling.loop call) (Calling.loop call) := by
  refine Agree.peek.next fun here => (Agree.expectKeyword _ _).next fun _ => ?_
  refine (hcall.expression _).bind fun condition condition' hcondition => ?_
  refine (hcall.block _).bind fun body body' hbody => (Agree.expectNewline _).next fun _ => ?_
  exact .node fun o o' ho => by rw [Node.unnumbered, ho, hcondition, hbody, Node.unnumbered]

/-- A branch on a condition agrees with itself if its calls do. -/
theorem branch_agree (hcall : Unnumbered call) :
    Agree Node.unnumbered (Calling.branch call) (Calling.branch call) := by
  have hotherwise :
      Agree (Option.map Node.unnumbered) (Calling.otherwise? call) (Calling.otherwise? call) := by
    refine (Agree.eat _).next fun eaten => ?_
    cases eaten with
    | true => exact (hcall.block _).bind fun n n' hn => .pure (congrArg some hn)
    | false => exact .pure rfl
  refine Agree.peek.next fun here => (Agree.expectKeyword _ _).next fun _ => ?_
  refine (hcall.expression _).bind fun condition condition' hcondition => ?_
  refine (hcall.block _).bind fun positive positive' hpositive => ?_
  refine hotherwise.bind fun negative negative' hnegative => (Agree.expectNewline _).next fun _ =>
    ?_
  exact .node fun o o' ho => by
    rw [Node.unnumbered_branch, ho, hcondition, hpositive, hnegative, Node.unnumbered_branch]

/-- The check of a form's block agrees for blocks that look alike. -/
theorem checkFormBody_agree (container : FormContainer) {n n' : Node}
    (h : n.unnumbered = n'.unnumbered) :
    Agree id (checkFormBody container n) (checkFormBody container n') := by
  rw [← checkFormBody_unnumbered, h, checkFormBody_unnumbered]
  unfold checkFormBody
  split
  · split
    · exact .fail _ _
    · exact .pure rfl
  · exact .pure rfl

/-- A child of a form or the end of the form agrees with itself if its calls do. -/
theorem formChild?_agree (hcall : Unnumbered call) :
    Agree (Option.map Node.unnumbered) (Calling.formChild? call) (Calling.formChild? call) := by
  refine hcall.lineEnds.next fun _ => (Agree.eat _).next fun closed => ?_
  cases closed with
  | true => exact .pure rfl
  | false =>
    refine Agree.peek.next fun here => ?_
    cases here.token with
    | keyword k =>
      cases k with
      | branch | loop =>
        refine Agree.advance.next fun _ =>
          (hcall.expression _).bind fun condition condition' hcondition => ?_
        refine (hcall.block _).bind fun body body' hbody =>
          (checkFormBody_agree _ hbody).next fun _ => ?_
        exact (Agree.fresh _).bind fun o o' ho => .pure (congrArg some (by
          rw [Node.unnumbered, ho, hcondition, hbody, Node.unnumbered]))
      | _ => exact .unexpected _ _
    | fieldKind kind => exact (hcall.same .field).bind fun n n' hn => .pure (congrArg some hn)
    | _ => exact .unexpected _ _

/-- A form declaration agrees with itself if its calls do. -/
theorem form_agree (hcall : Unnumbered call) :
    Agree Node.unnumbered (Calling.form call) (Calling.form call) := by
  refine Agree.peek.next fun here => (Agree.expectKeyword _ _).next fun _ => ?_
  refine (Agree.expectIdentifier _).next fun name => (Agree.expectMark _ _).next fun _ => ?_
  refine (hcall.same .children).bind fun body body' hbody => .node fun o o' ho => ?_
  rw [Node.unnumbered, Node.unnumbered, Node.unnumberedAll_eq_map, Node.unnumberedAll_eq_map, ho]
  exact congrArg _ hbody

/-- A statement agrees with itself if its calls do. -/
theorem statement_agree (hcall : Unnumbered call) :
    Agree Node.unnumbered (Calling.statement call) (Calling.statement call) := by
  refine Agree.peek.next fun here => ?_
  cases here.token with
  | keyword k =>
    cases k with
    | form => exact (hcall.same .form).bind fun n n' hn => (Agree.eat _).next fun _ => .pure hn
    | print => exact hcall.same .print
    | declare => exact hcall.same .declaration
    | loop => exact hcall.same .loop
    | branch => exact hcall.same .branch
    | _ => exact .unexpected _ _
  | identifier name => exact hcall.same .assignment
  | newline => exact Agree.advance.next fun _ => .leaf fun _ => rfl
  | _ => exact .unexpected _ _

/-- A line of a block or the end of the block agrees with itself if its calls do. -/
theorem line?_agree (hcall : Unnumbered call) (construct : String) :
    Agree (Option.map Node.unnumbered) (Calling.line? call construct)
      (Calling.line? call construct) := by
  refine (Agree.eat _).next fun closed => ?_
  cases closed with
  | true => exact .pure rfl
  | false =>
    refine (Agree.check _).next fun ended => ?_
    cases ended with
    | true => exact .unexpected _ _
    | false =>
      refine Agree.peek.next fun here => ?_
      cases here.token.isFieldKind with
      | true => exact (hcall.same .field).bind fun n n' hn => .pure (congrArg some hn)
      | false => exact (hcall.same .statement).bind fun n n' hn => .pure (congrArg some hn)

/-- A block agrees with itself if its calls do. -/
theorem block_agree (hcall : Unnumbered call) (construct : String) :
    Agree Node.unnumbered (Calling.block call construct) (Calling.block call construct) := by
  refine Agree.peek.next fun here => (Agree.enter _).next fun _ =>
    (Agree.expectMark _ _).next fun _ => ?_
  refine (Agree.expectNewline _).next fun _ => (hcall.same (.lines construct)).bind
    fun body body' hbody => ?_
  refine Agree.leave.next fun _ => .node fun o o' ho => ?_
  rw [Node.unnumbered, Node.unnumbered, Node.unnumberedAll_eq_map, Node.unnumberedAll_eq_map, ho]
  exact congrArg _ hbody

/-- A whole program agrees with itself if its calls do. -/
theorem program_agree (hcall : Unnumbered call) :
    Agree Node.unnumbered (Calling.program call) (Calling.program call) := by
  refine hcall.lineEnds.next fun _ => (hcall.block _).bind fun root root' hroot => ?_
  refine hcall.lineEnds.next fun _ => Agree.peek.next fun here => ?_
  split
  · exact .pure hroot
  · exact .fail _ _

/-- A pass of a collecting loop agrees with itself if the item and the rest do. -/
theorem collect_agree {α β : Type} {view : α → β} {item? : Parse (Option α)} {more : Parse (List α)}
    (h : Agree (Option.map view) item? item?) (hmore : Agree (List.map view) more more) :
    Agree (List.map view) (collect item? more) (collect item? more) := by
  refine h.bind_option (.pure rfl) fun item item' hitem => hmore.bind fun items items' hitems =>
    .pure ?_
  rw [List.map_cons, List.map_cons, hitem, hitems]

/-- The properties of a field agree behind properties that look alike. -/
theorem properties_agree (hcall : Unnumbered call) {before before' : List Node}
    (h : before.map Node.unnumbered = before'.map Node.unnumbered) :
    Agree (List.map Node.unnumbered) (Calling.properties call before)
      (Calling.properties call before') :=
  (nextProperty?_agree hcall h).bind_option (.pure h) fun _ _ hnow => hcall.properties hnow

/-- The bodies of all rules agree with themselves if the calls in them do. -/
theorem body_unnumbered (hcall : Unnumbered call) : Unnumbered (Rule.body call) where
  same r := by
    cases r with
    | expression r =>
      cases r with
      | factor => exact factor_agree hcall
      | tiers ts => exact tiers_agree hcall ts
      | chain t left => exact chain_agree hcall t rfl
    | lineEnds => exact lineEnds_agree hcall
    | arrayItems => exact collect_agree (arrayItem?_agree hcall) (hcall.same .arrayItems)
    | value => exact value_agree hcall
    | properties before => exact properties_agree hcall rfl
    | field => exact field_agree hcall
    | print => exact print_agree hcall
    | declaration => exact declaration_agree hcall
    | assignment => exact assignment_agree hcall
    | loop => exact loop_agree hcall
    | branch => exact branch_agree hcall
    | children => exact collect_agree (formChild?_agree hcall) (hcall.same .children)
    | form => exact form_agree hcall
    | statement => exact statement_agree hcall
    | lines construct =>
      exact collect_agree (line?_agree hcall construct) (hcall.same (.lines construct))
    | block construct => exact block_agree hcall construct
    | program => exact program_agree hcall
  chain h := chain_agree hcall _ h
  properties h := properties_agree hcall h

end

/-! ## Rules -/

/-- The rules agree with themselves, however deep their calls may nest. -/
theorem nested_unnumbered (n : Nat) : Unnumbered (Rule.nested (fun _ => unexpected "" "") n) := by
  induction n with
  | zero =>
    exact ⟨fun _ => .unexpected "" "", fun _ => .unexpected "" "", fun _ => .unexpected "" ""⟩
  | succ n ih => exact body_unnumbered ih

/-- From streams that differ in their counts only, a rule gives the same up to numbers. -/
theorem Rule.run_unnumbered (r : Rule) {s s' : TokenStream} (hended : s.Ended)
    (h : s.unnumbered = s'.unnumbered) : seen r.view (r.run s) = seen r.view (r.run s') := by
  obtain ⟨current, ahead, n, depth⟩ := s
  obtain ⟨current', ahead', n', depth'⟩ := s'
  obtain ⟨rfl, rfl, -, rfl⟩ := TokenStream.mk.inj h
  have hnested : ∀ n, Rule.nested (fun _ => unexpected "" "") (ahead.length * ranks + r.rank + 1) r
      ⟨current, ahead, n, depth⟩ = r.run ⟨current, ahead, n, depth⟩ :=
    fun n => Rule.nested_eq_run _ hended (Nat.lt_succ_self _)
  rw [← hnested n, ← hnested n']
  exact (nested_unnumbered _).same r _ _ rfl

end Grammar

end FormScript
