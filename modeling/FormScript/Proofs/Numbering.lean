import Mathlib.Data.List.Nodup
import FormScript.Proofs.Comments
import FormScript.Proofs.Shape

/-!
# The numbers of nodes

A stream counts the nodes that are made from it, and a node gets its number when all its parts have
theirs. `Node.Numbered lo hi ns` says that the nodes `ns` and all nodes below them have different
numbers from `lo` up to `hi` and that every node has a larger number than those below it, up to
properties: a key that comes again puts parts with later numbers below a property that has its
number already. `TokenStream.Numbers k s ns s'` adds what this costs: between the streams `s` and
`s'` the nodes `ns` were made, and `k` tokens more were taken than numbers given. Each rule of the
grammar takes a token for each of its nodes, so the numbers of a parsed tree are different
(`Grammar.ReadsBlock.numbers`) and no larger than the text is long (`parse_numbers_nodes`).
-/

namespace FormScript

namespace Node

/-- Whether a node is a property of a field. -/
def isProperty : Node → Bool
  | .scalar _ _ _ | .array _ _ _ => true
  | _ => false

/-- A tree is its root and the trees below it. -/
theorem walk_eq (n : Node) : n.walk = n :: walkAll n.children := by
  cases n with
  | declare _ _ _ init => cases init <;> simp [walk, walkAll, children]
  | branch _ _ _ negative => cases negative <;> simp [walk, walkAll, children]
  | _ => simp [walk, walkAll, children]

/-- The nodes of neighbours are those of each, one after the other. -/
theorem walkAll_append (ns ns' : List Node) : walkAll (ns ++ ns') = walkAll ns ++ walkAll ns' := by
  induction ns with
  | nil => rfl
  | cons n ns ih => rw [List.cons_append, walkAll, walkAll, ih, List.append_assoc]

/-- The root of the first tree comes first, and its parts take its place. -/
theorem walkAll_cons (n : Node) (ns : List Node) :
    walkAll (n :: ns) = n :: walkAll (n.children ++ ns) := by
  rw [walkAll, walk_eq, List.cons_append, walkAll_append]

/-- The numbers of nodes and of all nodes below them. -/
def ids (ns : List Node) : List Nat :=
  (walkAll ns).map id

/-- The numbers of neighbours are those of each, one after the other. -/
theorem ids_append (ns ns' : List Node) : ids (ns ++ ns') = ids ns ++ ids ns' := by
  rw [ids, walkAll_append, List.map_append]
  rfl

/-- The number of the first node comes first, then those below it. -/
theorem ids_cons (n : Node) (ns : List Node) :
    ids (n :: ns) = n.id :: (ids n.children ++ ids ns) := by
  rw [ids, walkAll_cons, List.map_cons, ← ids_append]
  rfl

/-- The numbers of a tree are that of its root and those below it. -/
theorem ids_singleton (n : Node) : ids [n] = n.id :: ids n.children := by
  rw [ids_cons]
  exact congrArg _ (List.append_nil _)

/-- Every node but a property has a larger number than the nodes below it. -/
def Ordered (n : Node) : Prop :=
  n.isProperty = false → ∀ m ∈ n.walk.tail, m.id < n.id

/-- The nodes `ns` and those below them have different numbers from `lo` up to `hi`, which grow
toward the root. -/
structure Numbered (lo hi : Nat) (ns : List Node) : Prop where
  bounds : ∀ i ∈ ids ns, lo ≤ i ∧ i < hi
  distinct : (ids ns).Nodup
  ordered : ∀ n ∈ walkAll ns, n.Ordered

namespace Numbered

variable {lo mid hi : Nat} {ns ns' : List Node} {n : Node}

/-- No nodes are numbered within any bounds. -/
theorem nil (lo hi : Nat) : Numbered lo hi [] where
  bounds := List.forall_mem_nil _
  distinct := .nil
  ordered := List.forall_mem_nil _

/-- Nodes that are numbered on from others are numbered together with them. -/
theorem append (h : Numbered lo mid ns) (h' : Numbered mid hi ns') (hlo : lo ≤ mid)
    (hhi : mid ≤ hi) : Numbered lo hi (ns ++ ns') where
  bounds i hi' := by
    rw [ids_append, List.mem_append] at hi'
    rcases hi' with hmem | hmem
    · have := h.bounds i hmem
      omega
    · have := h'.bounds i hmem
      omega
  distinct := by
    rw [ids_append, List.nodup_append]
    refine ⟨h.distinct, h'.distinct, fun i hmem j hmem' heq => ?_⟩
    have := h.bounds i hmem
    have := h'.bounds j hmem'
    omega
  ordered n hn := by
    rw [walkAll_append, List.mem_append] at hn
    exact hn.elim (h.ordered n) (h'.ordered n)

/-- A node that gets the next number, over parts that have theirs. -/
theorem node (h : Numbered lo hi n.children) (hid : n.id = hi) (hle : lo ≤ hi) :
    Numbered lo (hi + 1) [n] where
  bounds i hmem := by
    rw [ids_singleton, List.mem_cons] at hmem
    rcases hmem with rfl | hmem
    · omega
    · have := h.bounds i hmem
      omega
  distinct := by
    rw [ids_singleton, List.nodup_cons]
    refine ⟨fun hmem => ?_, h.distinct⟩
    have := h.bounds _ hmem
    omega
  ordered m hm := by
    rw [walkAll_cons, List.append_nil, List.mem_cons] at hm
    rcases hm with rfl | hm
    · intro _ m' hm'
      rw [walk_eq, List.tail_cons] at hm'
      rw [hid]
      exact (h.bounds m'.id (List.mem_map_of_mem hm')).2
    · exact h.ordered m hm

/-- A property that keeps its number and gets parts with later numbers in place of those that it
had. -/
theorem replace {before behind : List Node} {p p' : Node}
    (h : Numbered lo mid (before ++ p :: behind)) (hid : p'.id = p.id)
    (hproperty : p'.isProperty = true) (hparts : Numbered mid hi p'.children) (hlo : lo ≤ mid)
    (hhi : mid ≤ hi) : Numbered lo hi (before ++ p' :: behind) := by
  -- The old numbers without those of the old parts, and the numbers of the new parts behind them.
  have hkept : (ids before ++ p.id :: ids behind).Sublist (ids (before ++ p :: behind)) := by
    rw [ids_append, ids_cons]
    exact (List.Sublist.refl _).append ((List.sublist_append_right _ _).cons_cons _)
  have hperm : (ids (before ++ p' :: behind)).Perm
      ((ids before ++ p.id :: ids behind) ++ ids p'.children) := by
    rw [ids_append, ids_cons, hid, List.append_assoc, List.cons_append]
    exact (List.perm_append_comm.cons _).append_left _
  refine ⟨fun i hmem => ?_, ?_, fun n hn => ?_⟩
  · rcases List.mem_append.1 (hperm.mem_iff.1 hmem) with hmem | hmem
    · have := h.bounds i (hkept.subset hmem)
      omega
    · have := hparts.bounds i hmem
      omega
  · rw [hperm.nodup_iff, List.nodup_append]
    refine ⟨h.distinct.sublist hkept, hparts.distinct, fun i hmem j hmem' heq => ?_⟩
    have := h.bounds i (hkept.subset hmem)
    have := hparts.bounds j hmem'
    omega
  · rw [walkAll_append, walkAll_cons, walkAll_append] at hn
    have hold : ∀ n, n ∈ walkAll before ∨ n ∈ walkAll behind → n.Ordered := by
      intro n hn
      refine h.ordered n ?_
      rw [walkAll_append, walkAll_cons, walkAll_append]
      simp only [List.mem_append, List.mem_cons]
      exact hn.imp_right fun hn => .inr (.inr hn)
    simp only [List.mem_append, List.mem_cons] at hn
    rcases hn with hn | rfl | hn | hn
    · exact hold n (.inl hn)
    · intro hother
      cases hproperty.symm.trans hother
    · exact hparts.ordered n hn
    · exact hold n (.inr hn)

end Numbered

end Node

open Node (Numbered)

/-! ## Numbers and tokens -/

namespace TokenStream

/-- From one stream to another, the given nodes were made, and `k` tokens were taken beyond one for
each number. -/
structure Numbers (k : Nat) (s : TokenStream) (ns : List Node) (s' : TokenStream) : Prop where
  le : s.nextId ≤ s'.nextId
  paid : s'.nextId + s'.ahead.length + k ≤ s.nextId + s.ahead.length
  numbered : Numbered s.nextId s'.nextId ns

section
variable {s s₁ s' : TokenStream} {j k : Nat} {ns ns' : List Node} {n : Node} {token : Token}

/-- The creation of a node uses up one number. -/
theorem nextId_numbered (s : TokenStream) : s.numbered.nextId = s.nextId + 1 :=
  rfl

/-- Nothing was made where nothing was read. -/
theorem Numbers.refl (s : TokenStream) : s.Numbers 0 [] s where
  le := Nat.le_refl _
  paid := Nat.le_refl _
  numbered := .nil _ _

/-- Tokens that were taken beyond the numbers need not all be counted. -/
theorem Numbers.mono (h : s.Numbers k ns s') (hj : j ≤ k) : s.Numbers j ns s' where
  le := h.le
  paid := by
    have := h.paid
    omega
  numbered := h.numbered

/-- What was made on two ways was made on both together. -/
theorem Numbers.append (h : s.Numbers j ns s₁) (h' : s₁.Numbers k ns' s') :
    s.Numbers (j + k) (ns ++ ns') s' where
  le := Nat.le_trans h.le h'.le
  paid := by
    have := h.paid
    have := h'.paid
    omega
  numbered := h.numbered.append h'.numbered h.le h'.le

/-- A node takes the next number, for one of the tokens that were taken. -/
theorem Numbers.node (h : s.Numbers (k + 1) n.children s') (hid : n.id = s'.nextId) :
    s.Numbers k [n] s'.numbered where
  le := Nat.le_succ_of_le h.le
  paid := by
    have := h.paid
    rw [nextId_numbered, ahead_numbered]
    omega
  numbered := h.numbered.node hid h.le

/-- Opening a construct makes no node. -/
theorem Numbers.deeper (h : s.Numbers k ns s') : s.Numbers k ns s'.deeper :=
  ⟨h.le, h.paid, h.numbered⟩

/-- Closing a construct makes no node. -/
theorem Numbers.shallower (h : s.Numbers k ns s') : s.Numbers k ns s'.shallower :=
  ⟨h.le, h.paid, h.numbered⟩

/-- Taking a token uses up no number. -/
theorem Takes.nextId_eq (h : s.Takes token s') : s'.nextId = s.nextId := by
  obtain ⟨-, lexeme, ahead, -, rfl⟩ := h
  rfl

/-- Skipping line ends uses up no number. -/
theorem Skips.nextId_eq (h : s.Skips s') : s'.nextId = s.nextId := by
  induction h with
  | done => rfl
  | more newline _ ih => rw [ih, newline.nextId_eq]

/-- A token that is taken makes no node. -/
theorem Numbers.take (h : s.Numbers k ns s₁) (take : s₁.Takes token s') :
    s.Numbers (k + 1) ns s' where
  le := take.nextId_eq ▸ h.le
  paid := by
    have := h.paid
    have := take.ahead_lt
    have := take.nextId_eq
    omega
  numbered := take.nextId_eq ▸ h.numbered

/-- Line ends behind nodes make no node. -/
theorem Numbers.skip (h : s.Numbers k ns s₁) (skip : s₁.Skips s') : s.Numbers k ns s' where
  le := skip.nextId_eq ▸ h.le
  paid := by
    have := h.paid
    have := skip.ahead_le
    have := skip.nextId_eq
    omega
  numbered := skip.nextId_eq ▸ h.numbered

end

end TokenStream

open TokenStream (Numbers)

namespace Grammar

/-! ## Expressions -/

/-- The nodes that are there when a rule for expressions starts. -/
def ExpressionRule.prior : ExpressionRule → List Node
  | factor | tiers _ => []
  | chain _ left => [left]

section
variable {s₀ s s' : TokenStream} {k : Nat}

/-- The nodes of an expression are numbered on from those that were there. -/
theorem ReadsExpression.numbers {r : ExpressionRule} {d : Nat} {n : Node}
    (h : ReadsExpression r d s n s') (hprior : s₀.Numbers k r.prior s) : s₀.Numbers k [n] s' := by
  induction h generalizing s₀ k with
  | int take | str take | bool take | ident take => exact (hprior.take take).node rfl
  | scan word left right =>
    have htaken := ((hprior.take word).take left).take right
    exact (htaken.mono (by omega)).node rfl
  | parens left _ right ih =>
    have htaken := (ih (hprior.deeper.take left)).take right
    exact (htaken.mono (by omega)).shallower
  | prefixed _ take _ ih => exact (ih (hprior.deeper.take take)).shallower.node rfl
  | atom _ ih => exact ih hprior
  | tier _ _ ih ih' => exact ih' (ih hprior)
  | stop => exact hprior
  | more _ take _ _ ih ih' =>
    -- The right operand gets its numbers behind those of the left one, and the operator the next.
    have hoperands := (hprior.deeper.take take).append (ih (.refl _))
    exact (ih' (hoperands.node rfl)).shallower

end

/-! ## Fields -/

section
variable {s s' : TokenStream}

/-- An item of an array is numbered on. -/
theorem ReadsItem.numbers {n : Node} (h : ReadsItem s n s') : s.Numbers 0 [n] s' := by
  cases h with
  | text take | name take => exact ((Numbers.refl s).take take).node rfl

/-- The items of an array are numbered on. -/
theorem ReadsItems.numbers {ns : List Node} (h : ReadsItems s ns s') : s.Numbers 0 ns s' := by
  induction h with
  | close skip right => exact (((Numbers.refl _).skip skip).take right).mono (Nat.zero_le _)
  | last skip item skip' right =>
    have hitem := ((Numbers.refl _).skip skip).append item.numbers
    exact ((hitem.skip skip').take right).mono (Nat.zero_le _)
  | comma skip item skip' comma _ ih =>
    have hitem := ((Numbers.refl _).skip skip).append item.numbers
    exact (((hitem.skip skip').take comma).append ih).mono (Nat.zero_le _)

/-- The nodes of a value. -/
def PropertyValue.parts : PropertyValue → List Node
  | scalar value => [value]
  | array items => items

/-- The parts of a property are those of its value. -/
theorem PropertyValue.children_toNode (value : PropertyValue) (o : Origin) (key : String) :
    (value.toNode o key).children = value.parts := by
  cases value <;> rfl

/-- A value under a key is a property. -/
theorem PropertyValue.isProperty_toNode (value : PropertyValue) (o : Origin) (key : String) :
    (value.toNode o key).isProperty = true := by
  cases value <;> rfl

/-- A property has the number that it is made with. -/
theorem PropertyValue.id_toNode (value : PropertyValue) (o : Origin) (key : String) :
    (value.toNode o key).id = o.id := by
  cases value <;> rfl

/-- A property has the key that it is made with. -/
theorem PropertyValue.propertyKey?_toNode (value : PropertyValue) (o : Origin) (key : String) :
    propertyKey? (value.toNode o key) = some key := by
  cases value <;> rfl

/-- The nodes of a value are numbered on. -/
theorem ReadsValue.numbers {value : PropertyValue} (h : ReadsValue s value s') :
    s.Numbers 0 value.parts s' := by
  cases h with
  | text take | boolean take | integer take => exact ((Numbers.refl s).take take).node rfl
  | array left read => exact (((Numbers.refl s).take left).append read.numbers).mono (Nat.zero_le _)

/-- A property comes behind the others if its key is new, and otherwise takes the place of the one
with its key, if there is one only. -/
theorem putProperty_cases {before after : List Node} {line : Nat} {key : String}
    {value : PropertyValue} (hkeys : (before.map propertyKey?).Nodup)
    (h : putProperty before line key value s = .ok after s') :
    some key ∉ before.map propertyKey? ∧ after = before ++ [value.toNode (s.originAt line) key] ∧
      s' = s.numbered ∨
    ∃ front p behind, before = front ++ p :: behind ∧ propertyKey? p = some key ∧
      after = front ++ value.toNode p.origin key :: behind ∧ s' = s := by
  unfold putProperty at h
  split at h
  next hany =>
    cases h
    obtain ⟨p, hp, hkey⟩ := List.any_eq_true.1 hany
    replace hkey := of_decide_eq_true hkey
    obtain ⟨front, behind, rfl⟩ := List.append_of_mem hp
    rw [List.map_append, List.map_cons, hkey, List.nodup_middle, ← List.map_append,
      List.nodup_cons] at hkeys
    have hothers : ∀ q ∈ front ++ behind, propertyKey? q ≠ some key := fun q hq heq =>
      hkeys.1 (heq ▸ List.mem_map_of_mem hq)
    have hkept : ∀ ns : List Node, (∀ q ∈ ns, propertyKey? q ≠ some key) →
        ns.map (fun property => if propertyKey? property = some key then
          value.toNode property.origin key else property) = ns :=
      fun ns hns => (List.map_congr_left fun q hq => if_neg (hns q hq)).trans ns.map_id'
    rw [List.forall_mem_append] at hothers
    refine .inr ⟨front, p, behind, rfl, hkey, ?_, rfl⟩
    rw [List.map_append, List.map_cons, if_pos hkey, hkept front hothers.1, hkept behind hothers.2]
  next hnone =>
    cases h
    refine .inl ⟨fun hmem => hnone ?_, rfl, rfl⟩
    obtain ⟨p, hp, hkey⟩ := List.mem_map.1 hmem
    exact List.any_eq_true.2 ⟨p, hp, decide_eq_true hkey⟩

end

section
variable {s₀ s s' : TokenStream} {k : Nat} {before after : List Node}

/-- A property that is read has a key of its own among the others, and numbers of its own. -/
theorem ReadsProperty.numbers (h : ReadsProperty before s after s')
    (hkeys : (before.map propertyKey?).Nodup) (hbefore : s₀.Numbers k before s) :
    s₀.Numbers k after s' ∧ (after.map propertyKey?).Nodup := by
  obtain ⟨name, colon, read, put⟩ := h
  have hvalue := (((Numbers.refl s).take name).take colon).append read.numbers
  rw [List.nil_append] at hvalue
  rcases putProperty_cases hkeys put with ⟨hnew, rfl, rfl⟩ | ⟨front, p, behind, rfl, hkey, rfl, rfl⟩
  · constructor
    · rw [← PropertyValue.children_toNode] at hvalue
      exact (hbefore.append (hvalue.node (PropertyValue.id_toNode _ _ _))).mono (by omega)
    · rw [List.map_append, List.map_singleton, PropertyValue.propertyKey?_toNode]
      refine List.nodup_append.2 ⟨hkeys, List.nodup_singleton _, ?_⟩
      rintro key hkey _ hmem rfl
      exact hnew (List.mem_singleton.1 hmem ▸ hkey)
  · constructor
    · refine ⟨Nat.le_trans hbefore.le hvalue.le, ?_, ?_⟩
      · have := hbefore.paid
        have := hvalue.paid
        omega
      · rw [← PropertyValue.children_toNode] at hvalue
        exact hbefore.numbered.replace (PropertyValue.id_toNode _ _ _)
          (PropertyValue.isProperty_toNode _ _ _)
          hvalue.numbered hbefore.le hvalue.le
    · rw [List.map_append, List.map_cons, hkey] at hkeys
      rwa [List.map_append, List.map_cons, PropertyValue.propertyKey?_toNode]

/-- Properties are numbered on from those before them, also where one replaces another. -/
theorem ReadsProperties.numbers (h : ReadsProperties before s after s')
    (hkeys : (before.map propertyKey?).Nodup) (hbefore : s₀.Numbers k before s) :
    s₀.Numbers k after s' := by
  induction h generalizing k with
  | close skip right => exact ((hbefore.skip skip).take right).mono (by omega)
  | comma skip property comma _ ih =>
    obtain ⟨hnow, hkeys⟩ := property.numbers hkeys (hbefore.skip skip)
    exact (ih hkeys (hnow.take comma)).mono (by omega)
  | line skip property _ _ ih =>
    obtain ⟨hnow, hkeys⟩ := property.numbers hkeys (hbefore.skip skip)
    exact ih hkeys hnow

/-- The nodes of a field are numbered on. -/
theorem ReadsField.numbers {n : Node} (h : ReadsField s n s') : s.Numbers 0 [n] s' := by
  obtain ⟨word, title, left, read⟩ := h
  have hproperties := read.numbers .nil ((((Numbers.refl s).take word).take title).take left)
  exact (hproperties.mono (by omega)).node rfl

end

/-! ## Statements and forms -/

section
variable {s s' : TokenStream}

/-- The nodes of a block are numbered on. -/
theorem ReadsBlock.numbers {r : BlockRule} {d : Nat} {ns : List Node} (h : ReadsBlock r d s ns s') :
    s.Numbers 0 ns s' := by
  have hexpr : ∀ {d k s₀ s n s'}, ReadsExpression (.tiers Tier.all) d s n s' → Numbers k s₀ [] s →
      Numbers k s₀ [n] s' := fun h => h.numbers
  induction h with
  | block left newline _ ih =>
    have hbody := (((Numbers.refl _).deeper.take left).take newline).append ih
    exact (hbody.mono (by omega)).shallower.node rfl
  | close right => exact ((Numbers.refl _).take right).mono (by omega)
  | field first _ ih => exact first.numbers.append ih
  | statement _ _ ih ih' => exact ih.append ih'
  | print word left expr right newline =>
    have hparts := ((hexpr expr (((Numbers.refl _).take word).take left)).take right).take newline
    exact (hparts.mono (by omega)).node rfl
  | declare word title sort newline =>
    have hparts := ((((Numbers.refl _).take word).take title).take sort).take newline
    exact (hparts.mono (by omega)).node rfl
  | declareInit word title sort sign init newline =>
    have hinit := hexpr init (((((Numbers.refl _).take word).take title).take sort).take sign)
    exact ((hinit.take newline).mono (by omega)).node rfl
  | @assign s s₁ _ _ _ _ name _ title sign value newline =>
    -- The name is a node of its own, with the first number.
    have htarget : s.Numbers 0 [.ident (s₁.originAt s.current.line) name] s₁.numbered :=
      ((Numbers.refl s).take title).node rfl
    have hparts := ((htarget.take sign).append (hexpr value (.refl _))).take newline
    exact (hparts.mono (by omega)).node rfl
  | loop word condition _ newline ih | branch word condition _ newline ih =>
    have hparts := ((hexpr condition ((Numbers.refl _).take word)).append ih).take newline
    exact (hparts.mono (by omega)).node rfl
  | branchElse word condition _ other _ newline ih ih' =>
    have hbranch := (hexpr condition ((Numbers.refl _).take word)).append ih
    have hparts := ((hbranch.take other).append ih').take newline
    exact (hparts.mono (by omega)).node rfl
  | blank newline => exact ((Numbers.refl _).take newline).node rfl
  | formLine _ newline ih => exact (ih.take newline).mono (by omega)
  | formBare _ _ ih => exact ih
  | form word title left _ ih =>
    have hbody := ((((Numbers.refl _).take word).take title).take left).append ih
    exact (hbody.mono (by omega)).node rfl
  | formClose skip right => exact (((Numbers.refl _).skip skip).take right).mono (by omega)
  | formField skip first _ ih => exact (((Numbers.refl _).skip skip).append first.numbers).append ih
  | @formBlock _ s₁ _ _ s₄ _ _ _ _ c _ _ _ _ skip word condition _ _ _ ih ih' =>
    have hparts := (hexpr condition (((Numbers.refl _).skip skip).take word)).append ih
    rw [List.singleton_append, ← c.children_toNode (s₄.originAt s₁.current.line)] at hparts
    exact (hparts.node (by cases c <;> rfl)).append ih'

end

end Grammar

/-! ## Programs -/

/-- The first number is zero. -/
theorem TokenStream.nextId_of_ofText {text : String} {s : TokenStream} (h : ofText text = .ok s) :
    s.nextId = 0 := by
  unfold ofText ofReadings at h
  split at h
  · cases h
    rfl
  · cases h
  · cases h
    rfl

/-- A text has no more characters than bytes. -/
theorem length_toList_le_utf8ByteSize (text : String) : text.toList.length ≤ text.utf8ByteSize := by
  have hchars : ∀ cs : List Char, cs.length ≤ (String.ofList cs).utf8ByteSize := by
    intro cs
    induction cs with
    | nil => exact Nat.zero_le _
    | cons c cs ih =>
      have := c.utf8Size_pos
      rw [String.ofList_cons, String.utf8ByteSize_append, String.utf8ByteSize_singleton,
        List.length_cons]
      omega
  simpa using hchars text.toList

/-- The root of a tree has the last number that was given, and the text has more characters. -/
theorem Grammar.numbered_of_parse {source : String} {root : Node} (h : parse source = .ok root) :
    Numbered 0 (root.id + 1) [root] ∧ root.id < source.toList.length := by
  obtain ⟨s, s', d, hstream, -, read⟩ := parse_ok h
  obtain ⟨before, read, -, -⟩ := read
  have hnumbers := ((TokenStream.Numbers.refl s).skip before).append read.numbers
  have hlast : ∀ {d s n s'}, ReadsBlock .block d s [n] s' → s'.nextId = n.id + 1 := by
    intro d s n s' read
    cases read
    rfl
  have hstart := TokenStream.nextId_of_ofText hstream
  constructor
  · have hnumbered := hnumbers.numbered
    rwa [hstart, hlast read] at hnumbered
  · have hpaid := hnumbers.paid
    have hahead := TokenStream.length_ahead_le_of_ofText hstream
    have hlength := (Text.stripComments_sublist source).length_le
    rw [hstart, hlast read] at hpaid
    omega

/-- The nodes of a program of fewer than 2³² bytes have different numbers, of which the root has the
largest and every node but a property a larger one than all nodes below it. The count of nodes stays
within 32 bits. -/
theorem parse_numbers_nodes {source : String} {root : Node}
    (hsize : source.utf8ByteSize < UInt32.size) (h : parse source = .ok root) :
    (root.walk.map Node.id).Nodup ∧ (∀ n ∈ root.walk.tail, n.id < root.id) ∧
    (∀ n ∈ root.walk, n.isProperty = false → ∀ m ∈ n.walk.tail, m.id < n.id) ∧
    root.id + 1 < UInt32.size := by
  obtain ⟨hnumbered, hbound⟩ := Grammar.numbered_of_parse h
  have hwalk : Node.walkAll [root] = root.walk := List.append_nil _
  have hordered := hnumbered.ordered
  have hdistinct := hnumbered.distinct
  rw [hwalk] at hordered
  rw [Node.ids, hwalk] at hdistinct
  refine ⟨hdistinct, hordered root ?_ ?_, hordered, ?_⟩
  · rw [root.walk_eq]
    exact .head _
  · cases Grammar.hasRole_of_parse h
    rfl
  · have := length_toList_le_utf8ByteSize source
    omega

/-- A program in which a property is set twice. -/
def Sample.relabelled : String :=
  "\x7b\nstring_field a\x7blabel:\"x\",label:\"y\"\x7d\x7d"

/-- The second value of the property has a number behind that of the property. -/
theorem relabelled_numbers_nodes : ∃ root, parse Sample.relabelled = .ok root ∧
    root.walk.map Node.id = [4, 3, 1, 2] ∧ (root.walk.map Node.id).Nodup ∧
    (∀ n ∈ root.walk.tail, n.id < root.id) ∧
    (∀ n ∈ root.walk, n.isProperty = false → ∀ m ∈ n.walk.tail, m.id < n.id) ∧
    root.id + 1 < UInt32.size := by
  have hids : (parse Sample.relabelled).toOption.map (fun root => root.walk.map Node.id) =
      some [4, 3, 1, 2] := by
    decide +kernel
  have hsize : Sample.relabelled.utf8ByteSize < UInt32.size := by
    decide +kernel
  cases hparse : parse Sample.relabelled with
  | error e =>
    rw [hparse] at hids
    cases hids
  | ok root =>
    rw [hparse] at hids
    exact ⟨root, rfl, Option.some.inj hids, parse_numbers_nodes hsize hparse⟩

end FormScript
