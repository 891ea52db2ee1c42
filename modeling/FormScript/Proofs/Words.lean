import Mathlib.Data.List.TakeWhile
import FormScript.Proofs.Printing.Token
import FormScript.Proofs.Shape

/-!
# The words of a tree

`Node.words` are the tokens whose contents a node holds: its literal, its name or its key. All words
of a parsed tree are tokens of the text, so what holds of all tokens of a text holds of the words of
its tree (`Grammar.spelledIn_of_parse`). One such property is that a token can be spelled: a reading
is spelled by the characters that it was read from (`spellable_of_munch`), so names in a tree are
names and texts in a tree hold no quote (`Grammar.spellable_of_parse`).
-/

namespace FormScript

namespace Node

/-- The tokens whose contents a node holds. -/
def words : Node → List Token
  | .int _ k => [.integer k]
  | .str _ content => [.text content]
  | .bool _ b => [.boolean b]
  | .ident _ name | .form _ name _ => [.identifier name]
  | .declare _ name type _ => [.identifier name, .typeName type]
  | .field _ kind name _ => [.fieldKind kind, .identifier name]
  | .scalar _ key _ | .array _ key _ => [.identifier key]
  | _ => []

/-- All words of a tree have a property. -/
def SpelledIn (P : Token → Prop) (n : Node) : Prop :=
  ∀ m ∈ n.walk, ∀ token ∈ m.words, P token

section
variable {P : Token → Prop} {n : Node}

/-- The words of a tree are those of its root and of the trees below it. -/
theorem spelledIn_iff :
    n.SpelledIn P ↔ (∀ token ∈ n.words, P token) ∧ ∀ part ∈ n.children, part.SpelledIn P :=
  forall_walk

/-- What holds of all words of a tree holds of those of its root. -/
theorem SpelledIn.words (h : n.SpelledIn P) : ∀ token ∈ n.words, P token :=
  (spelledIn_iff.1 h).1

/-- What holds of all words of a tree holds of those of each part. -/
theorem SpelledIn.part {part : Node} (h : n.SpelledIn P) (hpart : part ∈ n.children) :
    part.SpelledIn P :=
  (spelledIn_iff.1 h).2 part hpart

end

end Node

namespace TokenStream

/-- All tokens that a stream will still offer have a property. -/
def Offers (P : Token → Prop) (s : TokenStream) : Prop :=
  ∀ lexeme, .ok lexeme ∈ s.pending → P lexeme.token

section
variable {P : Token → Prop} {s s' : TokenStream} {token : Token}

/-- A token that is taken was offered. -/
theorem Takes.offered (h : s.Takes token s') (hs : s.Offers P) : P token := by
  rw [← h.1]
  exact hs s.current (.head _)

/-- A stream from which a token is taken offers nothing new. -/
theorem Takes.offers (h : s.Takes token s') (hs : s.Offers P) : s'.Offers P := by
  intro lexeme hmem
  refine hs lexeme ?_
  rw [h.pending_eq]
  exact .tail _ hmem

/-- A stream whose line ends are skipped offers nothing new. -/
theorem Skips.offers (h : s.Skips s') (hs : s.Offers P) : s'.Offers P := by
  induction h with
  | done => exact hs
  | more newline _ ih => exact ih (newline.offers hs)

end

end TokenStream

namespace Grammar

open Node (SpelledIn spelledIn_iff)

section
variable {P : Token → Prop} {s s' : TokenStream}

/-- The words of an expression were offered, if those of its left operand were. -/
theorem ReadsExpression.spelledIn {r : ExpressionRule} {d : Nat} {n : Node}
    (h : ReadsExpression r d s n s') (hr : ∀ t left, r = .chain t left → left.SpelledIn P)
    (hs : s.Offers P) : n.SpelledIn P ∧ s'.Offers P := by
  induction h with
  | int take | str take | bool take | ident take =>
    exact ⟨spelledIn_iff.2 ⟨List.forall_mem_singleton.2 (take.offered hs), nofun⟩, take.offers hs⟩
  | scan word left right =>
    exact ⟨spelledIn_iff.2 ⟨nofun, nofun⟩, right.offers (left.offers (word.offers hs))⟩
  | parens left _ right ih =>
    obtain ⟨hn, hs⟩ := ih nofun (left.offers hs)
    exact ⟨hn, right.offers hs⟩
  | prefixed _ take _ ih =>
    obtain ⟨hn, hs⟩ := ih nofun (take.offers hs)
    exact ⟨spelledIn_iff.2 ⟨nofun, List.forall_mem_singleton.2 hn⟩, hs⟩
  | atom _ ih => exact ih nofun hs
  | tier _ _ ih ih' =>
    obtain ⟨hfirst, hs⟩ := ih nofun hs
    refine ih' ?_ hs
    rintro t left ⟨⟩
    exact hfirst
  | stop => exact ⟨hr _ _ rfl, hs⟩
  | more _ take _ _ ih ih' =>
    obtain ⟨hright, hs⟩ := ih nofun (take.offers hs)
    refine ih' ?_ hs
    rintro t left ⟨⟩
    exact spelledIn_iff.2 ⟨nofun, forall_mem_pair (hr _ _ rfl) hright⟩

/-- The word of an item was offered. -/
theorem ReadsItem.spelledIn {n : Node} (h : ReadsItem s n s') (hs : s.Offers P) :
    n.SpelledIn P ∧ s'.Offers P := by
  cases h with
  | text take | name take =>
    exact ⟨spelledIn_iff.2 ⟨List.forall_mem_singleton.2 (take.offered hs), nofun⟩, take.offers hs⟩

/-- The words of items were offered. -/
theorem ReadsItems.spelledIn {ns : List Node} (h : ReadsItems s ns s') (hs : s.Offers P) :
    (∀ n ∈ ns, n.SpelledIn P) ∧ s'.Offers P := by
  induction h with
  | close skip right => exact ⟨nofun, right.offers (skip.offers hs)⟩
  | last skip item skip' right =>
    obtain ⟨hn, hs⟩ := item.spelledIn (skip.offers hs)
    exact ⟨List.forall_mem_singleton.2 hn, right.offers (skip'.offers hs)⟩
  | comma skip item skip' comma _ ih =>
    obtain ⟨hn, hs⟩ := item.spelledIn (skip.offers hs)
    obtain ⟨hns, hs⟩ := ih (comma.offers (skip'.offers hs))
    exact ⟨List.forall_mem_cons.2 ⟨hn, hns⟩, hs⟩

/-- A value makes a spelled property under every spelled key. -/
theorem ReadsValue.spelledIn {value : PropertyValue} (h : ReadsValue s value s') (hs : s.Offers P) :
    (∀ o key, P (.identifier key) → (value.toNode o key).SpelledIn P) ∧ s'.Offers P := by
  cases h with
  | text take | boolean take | integer take =>
    refine ⟨fun o key hkey => ?_, take.offers hs⟩
    refine spelledIn_iff.2 ⟨List.forall_mem_singleton.2 hkey, List.forall_mem_singleton.2 ?_⟩
    exact spelledIn_iff.2 ⟨List.forall_mem_singleton.2 (take.offered hs), nofun⟩
  | array left read =>
    obtain ⟨hns, hs⟩ := read.spelledIn (left.offers hs)
    exact ⟨fun o key hkey => spelledIn_iff.2 ⟨List.forall_mem_singleton.2 hkey, hns⟩, hs⟩

/-- The words of properties were offered, if those of the properties before them were. -/
theorem ReadsProperties.spelledIn {before after : List Node} (h : ReadsProperties before s after s')
    (hbefore : ∀ n ∈ before, n.SpelledIn P) (hs : s.Offers P) :
    (∀ n ∈ after, n.SpelledIn P) ∧ s'.Offers P := by
  have hproperty : ∀ {before now : List Node} {s s' : TokenStream}, ReadsProperty before s now s' →
      (∀ n ∈ before, n.SpelledIn P) → s.Offers P → (∀ n ∈ now, n.SpelledIn P) ∧ s'.Offers P := by
    intro before now s s' h hbefore hs
    obtain ⟨name, colon, read, put⟩ := h
    obtain ⟨hvalue, hs'⟩ := read.spelledIn (colon.offers (name.offers hs))
    refine ⟨forall_of_putProperty put hbefore fun o => hvalue o _ (name.offered hs), ?_⟩
    rcases putProperty_ok put with rfl | rfl
    · exact hs'
    · exact hs'
  induction h with
  | close skip right => exact ⟨hbefore, right.offers (skip.offers hs)⟩
  | comma skip property comma _ ih =>
    obtain ⟨hnow, hs⟩ := hproperty property hbefore (skip.offers hs)
    exact ih hnow (comma.offers hs)
  | line skip property _ _ ih =>
    obtain ⟨hnow, hs⟩ := hproperty property hbefore (skip.offers hs)
    exact ih hnow hs

/-- The words of a field were offered. -/
theorem ReadsField.spelledIn {n : Node} (h : ReadsField s n s') (hs : s.Offers P) :
    n.SpelledIn P ∧ s'.Offers P := by
  obtain ⟨word, title, left, read⟩ := h
  obtain ⟨hproperties, hs'⟩ := read.spelledIn nofun (left.offers (title.offers (word.offers hs)))
  have hwords := forall_mem_pair (word.offered hs) (title.offered (word.offers hs))
  exact ⟨spelledIn_iff.2 ⟨hwords, hproperties⟩, hs'⟩

/-- The words of what a rule for blocks reads were offered. -/
theorem ReadsBlock.spelledIn {r : BlockRule} {d : Nat} {ns : List Node} (h : ReadsBlock r d s ns s')
    (hs : s.Offers P) : (∀ n ∈ ns, n.SpelledIn P) ∧ s'.Offers P := by
  have hexpr : ∀ {d s n s'}, ReadsExpression (.tiers Tier.all) d s n s' → s.Offers P →
      n.SpelledIn P ∧ s'.Offers P := fun h => h.spelledIn nofun
  induction h with
  | block left newline _ ih =>
    obtain ⟨hbody, hs⟩ := ih (newline.offers (left.offers hs))
    exact ⟨List.forall_mem_singleton.2 (spelledIn_iff.2 ⟨nofun, hbody⟩), hs⟩
  | close right => exact ⟨nofun, right.offers hs⟩
  | field first _ ih =>
    obtain ⟨hn, hs⟩ := first.spelledIn hs
    obtain ⟨hns, hs⟩ := ih hs
    exact ⟨List.forall_mem_cons.2 ⟨hn, hns⟩, hs⟩
  | statement _ _ ih ih' =>
    obtain ⟨hn, hs⟩ := ih hs
    obtain ⟨hns, hs⟩ := ih' hs
    exact ⟨List.forall_mem_cons.2 ⟨hn _ (.head _), hns⟩, hs⟩
  | print word left expr right newline =>
    obtain ⟨he, hs⟩ := hexpr expr (left.offers (word.offers hs))
    refine ⟨List.forall_mem_singleton.2 ?_, newline.offers (right.offers hs)⟩
    exact spelledIn_iff.2 ⟨nofun, List.forall_mem_singleton.2 he⟩
  | declare word title sort newline =>
    have hs' := word.offers hs
    have hwords := forall_mem_pair (title.offered hs') (sort.offered (title.offers hs'))
    refine ⟨List.forall_mem_singleton.2 ?_, newline.offers (sort.offers (title.offers hs'))⟩
    exact spelledIn_iff.2 ⟨hwords, nofun⟩
  | declareInit word title sort sign init newline =>
    have hs' := word.offers hs
    have hwords := forall_mem_pair (title.offered hs') (sort.offered (title.offers hs'))
    obtain ⟨he, hs⟩ := hexpr init (sign.offers (sort.offers (title.offers hs')))
    refine ⟨List.forall_mem_singleton.2 ?_, newline.offers hs⟩
    exact spelledIn_iff.2 ⟨hwords, List.forall_mem_singleton.2 he⟩
  | assign title sign value newline =>
    obtain ⟨he, hs'⟩ := hexpr value (sign.offers (title.offers hs))
    refine ⟨List.forall_mem_singleton.2 (spelledIn_iff.2 ⟨nofun, forall_mem_pair ?_ he⟩),
      newline.offers hs'⟩
    exact spelledIn_iff.2 ⟨List.forall_mem_singleton.2 (title.offered hs), nofun⟩
  | loop word condition _ newline ih | branch word condition _ newline ih =>
    obtain ⟨he, hs⟩ := hexpr condition (word.offers hs)
    obtain ⟨hbody, hs⟩ := ih hs
    refine ⟨List.forall_mem_singleton.2 ?_, newline.offers hs⟩
    exact spelledIn_iff.2 ⟨nofun, forall_mem_pair he (hbody _ (.head _))⟩
  | branchElse word condition _ other _ newline ih ih' =>
    obtain ⟨he, hs⟩ := hexpr condition (word.offers hs)
    obtain ⟨hpositive, hs⟩ := ih hs
    obtain ⟨hnegative, hs⟩ := ih' (other.offers hs)
    refine ⟨List.forall_mem_singleton.2 (spelledIn_iff.2 ⟨nofun, ?_⟩), newline.offers hs⟩
    exact List.forall_mem_cons.2 ⟨he,
      forall_mem_pair (hpositive _ (.head _)) (hnegative _ (.head _))⟩
  | blank newline =>
    exact ⟨List.forall_mem_singleton.2 (spelledIn_iff.2 ⟨nofun, nofun⟩), newline.offers hs⟩
  | formLine _ newline ih =>
    obtain ⟨hn, hs⟩ := ih hs
    exact ⟨hn, newline.offers hs⟩
  | formBare _ _ ih => exact ih hs
  | form word title left _ ih =>
    have hs' := word.offers hs
    obtain ⟨hbody, hs''⟩ := ih (left.offers (title.offers hs'))
    refine ⟨List.forall_mem_singleton.2 ?_, hs''⟩
    exact spelledIn_iff.2 ⟨List.forall_mem_singleton.2 (title.offered hs'), hbody⟩
  | formClose skip right => exact ⟨nofun, right.offers (skip.offers hs)⟩
  | formField skip first _ ih =>
    obtain ⟨hn, hs⟩ := first.spelledIn (skip.offers hs)
    obtain ⟨hns, hs⟩ := ih hs
    exact ⟨List.forall_mem_cons.2 ⟨hn, hns⟩, hs⟩
  | @formBlock _ _ _ _ _ _ _ _ _ container _ _ _ _ skip word condition _ _ _ ih ih' =>
    obtain ⟨he, hs⟩ := hexpr condition (word.offers (skip.offers hs))
    obtain ⟨hbody, hs⟩ := ih hs
    obtain ⟨hns, hs⟩ := ih' hs
    refine ⟨List.forall_mem_cons.2 ⟨spelledIn_iff.2 ⟨?_, ?_⟩, hns⟩, hs⟩
    · cases container <;> exact nofun
    · rw [FormContainer.children_toNode]
      exact forall_mem_pair he (hbody _ (.head _))

end

/-- What holds of all tokens of a text holds of the words of its tree. -/
theorem spelledIn_of_parse {P : Token → Prop} {source : String} {root : Node}
    (h : parse source = .ok root)
    (hP : ∀ lexeme, .ok lexeme ∈ (Scanner.ofText (Text.stripComments source)).readings →
      P lexeme.token) : root.SpelledIn P := by
  obtain ⟨s, s', d, hstream, -, read⟩ := parse_ok h
  obtain ⟨before, read, -, -⟩ := read
  have hs : s.Offers P := by
    rw [TokenStream.Offers, (TokenStream.ofText_ok hstream).1]
    exact hP
  exact (read.spelledIn (before.offers hs)).1 root (.head _)

end Grammar

/-! ## Spelling -/

instance (token : Token) : Decidable token.Spellable :=
  match token with
  | .integer n => inferInstanceAs (Decidable (0 ≤ n.toInt))
  | .text content => inferInstanceAs (Decidable ('"' ∉ content.toList))
  | .identifier name =>
    inferInstanceAs (Decidable (isName name = true ∧ ∀ entry ∈ Token.reserved, entry.1 ≠ name))
  | .endOfInput => inferInstanceAs (Decidable False)
  | .boolean _ | .typeName _ | .fieldKind _ | .keyword _ | .mark _ | .newline =>
    inferInstanceAs (Decidable True)

/-- Every word is spelled as it was read. -/
theorem Token.ofWord_spellable {word : String} (h : isName word = true) :
    (ofWord word).Spellable := by
  rw [ofWord]
  cases hfound : reserved.lookup word with
  | none =>
    refine ⟨h, fun entry hentry => ?_⟩
    have hne := List.lookup_eq_none_iff.1 hfound entry hentry
    exact (bne_iff_ne.1 hne).symm
  | some token =>
    obtain ⟨before, behind, heq, -⟩ := List.lookup_eq_some_iff.1 hfound
    have hmem : (word, token) ∈ reserved := by simp [heq]
    have hall : ∀ entry ∈ reserved, entry.2.Spellable := by decide
    exact hall _ hmem

/-- A token that is read can be spelled. -/
theorem spellable_of_munch {c : Char} {cs : List Char} {token : Token} {length : Nat}
    (h : munch c cs = (.ok token, length)) : token.Spellable := by
  unfold munch at h
  split at h
  · obtain ⟨htoken, -⟩ := Prod.mk.inj h
    rw [integerToken] at htoken
    split at htoken
    next hle =>
      cases htoken
      change 0 ≤ (Int64.ofNat _).toInt
      rw [Int64.toInt_ofNat_of_lt]
      · exact Int.natCast_nonneg _
      · change _ ≤ (9223372036854775807 : Int) at hle
        omega
    next => cases htoken
  split at h
  next hstart =>
    obtain ⟨htoken, -⟩ := Prod.mk.inj h
    cases htoken
    refine Token.ofWord_spellable ?_
    rw [isName, String.toList_ofList]
    simp only [hstart, Bool.true_and, List.all_eq_true]
    intro c hc
    exact List.mem_takeWhile_imp hc
  split at h
  · simp only at h
    split at h
    · obtain ⟨htoken, -⟩ := Prod.mk.inj h
      cases htoken
      change '"' ∉ (String.ofList _).toList
      rw [String.toList_ofList]
      intro hquote
      simpa using List.mem_takeWhile_imp hquote
    · cases h
  split at h
  · cases h
    trivial
  split at h
  · cases h
    trivial
  · cases h

/-- Every token of a text but the end of input can be spelled. -/
theorem Scanner.spellable_of_mem_readings (s : Scanner) :
    ∀ lexeme, .ok lexeme ∈ s.readings → lexeme.token ≠ .endOfInput → lexeme.token.Spellable := by
  induction s using Scanner.induction_readings with
  | stop s h =>
    rw [readings_of_none h]
    rintro lexeme (_ | ⟨_, hmem⟩) hne
    · exact absurd rfl hne
    · cases hmem
  | step s reading after h ih =>
    rw [readings_of_some h]
    rintro lexeme (_ | ⟨_, hmem⟩) hne
    · obtain ⟨c, cs, length, -, hmunch, -⟩ := step?_ok h
      exact spellable_of_munch hmunch
    · exact ih lexeme hmem hne

/-- The words of a parsed tree can be spelled. -/
theorem Grammar.spellable_of_parse {source : String} {root : Node} (h : parse source = .ok root) :
    root.SpelledIn Token.Spellable := by
  have hread : root.SpelledIn fun token => token ≠ .endOfInput → token.Spellable :=
    spelledIn_of_parse h (Scanner.spellable_of_mem_readings _)
  intro n hn token htoken
  refine hread n hn token htoken ?_
  rintro rfl
  cases n <;> simp [Node.words] at htoken

end FormScript
