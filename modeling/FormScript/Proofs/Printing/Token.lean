import FormScript.Proofs.Comments
import FormScript.Proofs.Scanning

/-!
# Printed tokens

`Token.spelling` is the text that writes a token, for the tokens that have one (`Token.Spellable`),
and `Writes w cs` says that the text `cs` writes the tokens `w` one after the other with blanks
between neighbours. Scanning undoes it: the readings of such a text are its tokens and the end of
input (`Writes.readings`). A text without `//` keeps all its characters when comments are cut off
(`Text.stripComments_of_plain`), and a text written with spaces is such a text if no quoted text in
it holds `//` (`plain_spaced`).
-/

namespace FormScript

/-- Whether a text has the form of a name: letters, digits and underscores, with no digit in
front. -/
def isName (word : String) : Bool :=
  match word.toList with
  | [] => false
  | c :: cs => isWordStart c && cs.all isWordPart

namespace Token

/-- The text that writes a token. -/
def spelling : Token → List Char
  | integer n => (intText n).toList
  | text content => '"' :: (content.toList ++ ['"'])
  | boolean b => (boolText b).toList
  | typeName type => type.keyword.toList
  | fieldKind kind => kind.keyword.toList
  | keyword k => k.text.toList
  | identifier name => name.toList
  | mark m => m.text.toList
  | newline => ['\n']
  | endOfInput => []

/-- The tokens that a text can write: integers that are not negative, texts without a quote, names
that are no reserved words, and all fixed tokens. -/
def Spellable : Token → Prop
  | integer n => 0 ≤ n.toInt
  | text content => '"' ∉ content.toList
  | identifier name => isName name = true ∧ ∀ entry ∈ reserved, entry.1 ≠ name
  | endOfInput => False
  | _ => True

end Token

/-- The end of the text, or a blank. -/
def Separated (cs : List Char) : Prop :=
  ∀ c ∈ cs.head?, isBlank c = true

section
variable {after : List Char}

/-- Behind a separated token the text ends, or there is a space or a tab. -/
theorem Separated.cases (h : Separated after) :
    after = [] ∨ ∃ c cs, after = c :: cs ∧ (c = ' ' ∨ c = '\t') := by
  cases after with
  | nil => exact .inl rfl
  | cons c cs => exact .inr ⟨c, cs, rfl, by simpa [isBlank] using h c rfl⟩

/-- A run of characters ends where a blank follows. -/
theorem takeWhile_append_separated {p : Char → Bool} {cs : List Char} (hcs : ∀ c ∈ cs, p c = true)
    (hspace : p ' ' = false) (htab : p '\t' = false) (h : Separated after) :
    (cs ++ after).takeWhile p = cs := by
  rw [List.takeWhile_append_of_pos hcs]
  rcases h.cases with rfl | ⟨c, cs, rfl, rfl | rfl⟩
  · simp
  · simp [hspace]
  · simp [htab]

/-- A character of a class without blanks is no blank. -/
theorem isBlank_eq_false {p : Char → Bool} {c : Char} (hc : p c = true) (hspace : p ' ' = false)
    (htab : p '\t' = false) : isBlank c = false := by
  cases hblank : isBlank c with
  | false => rfl
  | true =>
    obtain rfl | rfl : c = ' ' ∨ c = '\t' := by simpa [isBlank] using hblank
    · simp [hc] at hspace
    · simp [hc] at htab

/-- No word starts with a digit. -/
theorem isDigit_eq_false_of_isWordStart {c : Char} (h : isWordStart c = true) :
    c.isDigit = false := by
  rw [isWordStart, Bool.or_eq_true, decide_eq_true_eq] at h
  rcases h with h | rfl
  · have hletter : (decide (65 ≤ c.val ∧ c.val ≤ 90) ||
        decide (97 ≤ c.val) && decide (c.val ≤ 122)) = true := h
    have hdigit : c.isDigit = (decide (48 ≤ c.val) && decide (c.val ≤ 57)) := rfl
    rw [hdigit]
    simp only [Bool.or_eq_true, Bool.and_eq_true, decide_eq_true_eq, Bool.and_eq_false_iff,
      decide_eq_false_iff_not, UInt32.le_iff_toNat_le, UInt32.reduceToNat] at hletter ⊢
    omega
  · rfl

/-- The digits of an integer that is not negative. -/
theorem intText_toList {n : Int64} {m : Nat} (hn : n.toInt = m) :
    (intText n).toList = Nat.toDigits 10 m := by
  rw [intText, hn]
  simp [toString, Int.repr, Nat.repr]

/-- The digits of a number have its value. -/
theorem digitsValue_toDigits (m : Nat) : digitsValue (Nat.toDigits 10 m) = m :=
  Nat.ofDigitChars_toDigits (by decide) (Nat.le_refl 10)

/-- Reading the digits of an integer gives the integer. -/
theorem integerToken_toDigits {n : Int64} {m : Nat} (hn : n.toInt = m) :
    integerToken (Nat.toDigits 10 m) = .ok (.integer n) := by
  have hle : m ≤ Int64.maxValue.toInt := hn ▸ Int64.toInt_le n
  have hofNat : Int64.ofNat m = n := by
    rw [← Int64.ofInt_toInt n, hn]
    rfl
  rw [integerToken, digitsValue_toDigits, if_pos hle, hofNat]

/-- A written integer is taken back in one bite. -/
theorem munch_integer {n : Int64} (hn : 0 ≤ n.toInt) (h : Separated after) :
    ∃ c cs, (intText n).toList = c :: cs ∧ isBlank c = false ∧
      munch c (cs ++ after) = (.ok (.integer n), (c :: cs).length) := by
  obtain ⟨m, hm⟩ := Int.eq_ofNat_of_zero_le hn
  rw [intText_toList hm]
  have htoken := integerToken_toDigits hm
  have hdigits : ∀ c ∈ Nat.toDigits 10 m, c.isDigit = true :=
    fun c => Nat.isDigit_of_mem_toDigits (by decide) (Nat.le_refl 10)
  cases hcs : Nat.toDigits 10 m with
  | nil => exact absurd hcs Nat.toDigits_ne_nil
  | cons c cs =>
    rw [hcs] at htoken hdigits
    have hc := hdigits c (.head _)
    have htake : (cs ++ after).takeWhile Char.isDigit = cs :=
      takeWhile_append_separated (fun c hc => hdigits c (.tail _ hc)) rfl rfl h
    refine ⟨c, cs, rfl, isBlank_eq_false hc rfl rfl, ?_⟩
    simp only [munch, hc, if_true, htake, htoken]

/-- A written word is taken back in one bite. -/
theorem munch_word {word : String} (hword : isName word = true) (h : Separated after) :
    ∃ c cs, word.toList = c :: cs ∧ isBlank c = false ∧
      munch c (cs ++ after) = (.ok (.ofWord word), (c :: cs).length) := by
  rw [isName] at hword
  cases hcs : word.toList with
  | nil => simp [hcs] at hword
  | cons c cs =>
    obtain ⟨hc, hparts⟩ : isWordStart c = true ∧ ∀ c ∈ cs, isWordPart c = true := by
      simpa [hcs] using hword
    have htake : (cs ++ after).takeWhile isWordPart = cs :=
      takeWhile_append_separated hparts rfl rfl h
    have hofList : String.ofList (c :: cs) = word := by
      rw [← hcs, String.ofList_toList]
    refine ⟨c, cs, rfl, isBlank_eq_false hc rfl rfl, ?_⟩
    simp [munch, isDigit_eq_false_of_isWordStart hc, hc, htake, hofList]

/-- A written text is taken back in one bite, quotes and all. -/
theorem munch_text {content : String} (hcontent : '"' ∉ content.toList) :
    munch '"' (content.toList ++ ['"'] ++ after) =
      (.ok (.text content), content.toList.length + 2) := by
  have htake : (content.toList ++ ['"'] ++ after).takeWhile (· != '"') = content.toList := by
    rw [List.append_assoc, List.takeWhile_append_of_pos]
    · simp
    · intro c hc
      simpa using fun heq : c = '"' => hcontent (heq ▸ hc)
  have hmem : '"' ∈ content.toList ++ ['"'] ++ after := by simp
  rw [munch, if_neg (by decide), if_neg (by decide), if_pos rfl, htake, if_pos hmem,
    String.ofList_toList]

/-- A written mark is taken back in one bite. -/
theorem munch_mark (m : Mark) (h : Separated after) :
    ∃ c cs, m.text.toList = c :: cs ∧ isBlank c = false ∧
      munch c (cs ++ after) = (.ok (.mark m), (c :: cs).length) := by
  rcases h.cases with rfl | ⟨c, cs, rfl, rfl | rfl⟩
  · cases m <;> exact ⟨_, _, rfl, rfl, rfl⟩
  · cases m <;> exact ⟨_, _, rfl, rfl, rfl⟩
  · cases m <;> exact ⟨_, _, rfl, rfl, rfl⟩

/-- A spelled token is read back in front of a blank or the end of the text. -/
theorem Token.Spellable.munch {token : Token} (ht : token.Spellable) (h : Separated after) :
    ∃ c cs, token.spelling = c :: cs ∧ isBlank c = false ∧
      munch c (cs ++ after) = (.ok token, (c :: cs).length) := by
  cases token with
  | integer n => exact munch_integer ht h
  | text content =>
    refine ⟨'"', content.toList ++ ['"'], rfl, rfl, ?_⟩
    rw [munch_text ht]
    simp
  | boolean b =>
    cases b with
    | true | false => exact munch_word (by decide) h
  | typeName type =>
    cases type with
    | int | string | bool => exact munch_word (by decide) h
  | fieldKind kind =>
    cases kind with
    | string | select | checkbox => exact munch_word (by decide) h
  | keyword k =>
    cases k with
    | declare | branch | otherwise | loop | print | scan | form => exact munch_word (by decide) h
  | identifier name =>
    obtain ⟨hname, hreserved⟩ := ht
    have hlookup : Token.reserved.lookup name = none := by
      rw [List.lookup_eq_none_iff]
      intro entry hentry
      exact bne_iff_ne.2 (hreserved entry hentry).symm
    have hword : Token.ofWord name = .identifier name := by
      rw [Token.ofWord, hlookup]
      rfl
    rw [Token.spelling, ← hword]
    exact munch_word hname h
  | mark m => exact munch_mark m h
  | newline => exact ⟨'\n', [], rfl, rfl, rfl⟩
  | endOfInput => exact ht.elim

end

/-! ## Written texts -/

/-- A text writes tokens one after the other, with blanks between neighbours. -/
inductive Writes : List Token → List Char → Prop where
  | done {blanks : List Char} (hblanks : ∀ c ∈ blanks, isBlank c = true) : Writes [] blanks
  | token {token : Token} {w : List Token} {blanks cs : List Char}
      (hblanks : ∀ c ∈ blanks, isBlank c = true) (separated : Separated cs) (rest : Writes w cs) :
    Writes (token :: w) (blanks ++ token.spelling ++ cs)

/-- Scanning a written text gives back its tokens. -/
theorem Writes.readings {w : List Token} {cs : List Char} (h : Writes w cs)
    (hw : ∀ token ∈ w, token.Spellable) (s : Scanner) (hs : s.rest = cs) :
    ∃ lexemes : List Lexeme, s.readings = lexemes.map .ok ∧
      lexemes.map Lexeme.token = w ++ [.endOfInput] := by
  induction h generalizing s with
  | done hblanks =>
    have hrest : s.skipBlanks.rest = [] := by
      rw [Scanner.skipBlanks, hs]
      simpa using @List.dropWhile_append_of_pos _ _ _ [] hblanks
    exact ⟨[s.skipBlanks.endLexeme], Scanner.readings_of_none (Scanner.step?_of_nil hrest), rfl⟩
  | @token token w blanks cs hblanks separated _ ih =>
    obtain ⟨c, cs', hspell, hc, hmunch⟩ := (hw token (.head _)).munch separated
    have hrest : s.skipBlanks.rest = c :: (cs' ++ cs) := by
      rw [Scanner.skipBlanks, hs, List.append_assoc, List.dropWhile_append_of_pos hblanks, hspell,
        List.cons_append, List.dropWhile_cons_of_neg (by simp [hc])]
    obtain ⟨lexeme, htoken, hstep⟩ : ∃ lexeme : Lexeme, lexeme.token = token ∧
        s.step? = some (.ok lexeme, s.skipBlanks.pass (c :: cs').length) :=
      ⟨_, rfl, Scanner.step?_of_munch_ok hrest hmunch⟩
    have hafter : (s.skipBlanks.pass (c :: cs').length).rest = cs := by
      rw [Scanner.pass, Scanner.skip, hrest]
      simp
    obtain ⟨lexemes, hreadings, htokens⟩ := ih (fun token ht => hw token (.tail _ ht)) _ hafter
    refine ⟨lexeme :: lexemes, ?_, ?_⟩
    · rw [Scanner.readings_of_some hstep, hreadings]
      rfl
    · rw [List.map_cons, htoken, htokens]
      rfl

/-! ## Texts with single spaces -/

/-- The text of tokens with a single space between neighbours. -/
def spaced (w : List Token) : String :=
  String.ofList ([' '].intercalate (w.map Token.spelling))

/-- A space may stand in front of written tokens. -/
theorem Writes.space {w : List Token} {cs : List Char} (h : Writes w cs) :
    Writes w (' ' :: cs) := by
  cases h with
  | done hblanks => exact .done (List.forall_mem_cons.2 ⟨rfl, hblanks⟩)
  | token hblanks separated rest =>
    exact @Writes.token _ _ (' ' :: _) _ (List.forall_mem_cons.2 ⟨rfl, hblanks⟩) separated rest

/-- Tokens with a space between neighbours are written. -/
theorem writes_spaced (w : List Token) : Writes w (spaced w).toList := by
  rw [spaced, String.toList_ofList]
  induction w with
  | nil => exact .done (by simp)
  | cons token w ih =>
    cases w with
    | nil =>
      have hwrites : Writes [token] ([] ++ token.spelling ++ []) :=
        .token (by simp) (by simp [Separated]) ih
      simpa using hwrites
    | cons token' w =>
      have hwrites : Writes (token :: token' :: w) ([] ++ token.spelling ++ ' ' :: _) :=
        .token (by simp) (by simp [Separated, isBlank]) ih.space
      simpa [List.intercalate_cons_cons] using hwrites

/-- A name holds word characters only. -/
theorem isWordPart_of_isName {word : String} (h : isName word = true) :
    ∀ c ∈ word.toList, isWordPart c = true := by
  rw [isName] at h
  cases hcs : word.toList with
  | nil => simp
  | cons c cs =>
    obtain ⟨hc, hparts⟩ : isWordStart c = true ∧ ∀ c ∈ cs, isWordPart c = true := by
      simpa [hcs] using h
    refine List.forall_mem_cons.2 ⟨?_, hparts⟩
    rw [isWordStart, Bool.or_eq_true] at hc
    rw [isWordPart, Bool.or_eq_true, Char.isAlphanum, Bool.or_eq_true]
    exact hc.imp_left .inl

/-- A spelled token holds no `//` unless it quotes a text that does. -/
theorem Token.Spellable.plain {token : Token} (h : token.Spellable)
    (htext : ∀ content, token = .text content → Text.Plain content.toList) :
    Text.Plain token.spelling := by
  cases token with
  | integer n =>
    obtain ⟨m, hm⟩ := Int.eq_ofNat_of_zero_le (show 0 ≤ n.toInt from h)
    refine Text.plain_of_not_mem fun hslash => ?_
    rw [spelling, intText_toList hm] at hslash
    have hdigit := Nat.isDigit_of_mem_toDigits (by decide) (Nat.le_refl 10) hslash
    revert hdigit
    decide
  | text content =>
    have hquoted : Text.Plain (content.toList ++ '"' :: []) :=
      (htext content rfl).append_cons (by decide) .nil
    have hnil : Text.Plain [] := .nil
    exact hnil.append_cons (by decide) hquoted
  | boolean b => cases b <;> exact Text.plain_of_not_mem (by decide)
  | typeName type => cases type <;> exact Text.plain_of_not_mem (by decide)
  | fieldKind kind => cases kind <;> exact Text.plain_of_not_mem (by decide)
  | keyword k => cases k <;> exact Text.plain_of_not_mem (by decide)
  | identifier name =>
    refine Text.plain_of_not_mem fun hslash => ?_
    have hpart := isWordPart_of_isName h.1 _ hslash
    revert hpart
    decide
  | mark m => cases m <;> decide
  | newline => exact .singleton _
  | endOfInput => exact h.elim

/-- Tokens without slashes side by side have none with spaces between them. -/
theorem plain_spaced {w : List Token} (h : ∀ token ∈ w, Text.Plain token.spelling) :
    Text.Plain (spaced w).toList := by
  rw [spaced, String.toList_ofList]
  induction w with
  | nil => exact .nil
  | cons token w ih =>
    obtain ⟨htoken, hw⟩ := List.forall_mem_cons.1 h
    cases w with
    | nil => simpa using htoken
    | cons token' w => simpa using htoken.append_cons (by decide) (ih hw)

/-- Comments aside, a text written with single spaces is scanned as its tokens. -/
theorem tokenize_spaced {w : List Token} (hw : ∀ token ∈ w, token.Spellable)
    (htext : ∀ content, .text content ∈ w → Text.Plain content.toList) :
    ∃ lexemes, tokenize (spaced w) = .ok lexemes ∧
      lexemes.map Lexeme.token = w ++ [.endOfInput] := by
  have hplain : Text.Plain (spaced w).toList :=
    plain_spaced fun token ht => (hw token ht).plain fun content heq => htext content (heq ▸ ht)
  obtain ⟨lexemes, hreadings, htokens⟩ := (writes_spaced w).readings hw (.ofText (spaced w)) rfl
  refine ⟨lexemes, ?_, htokens⟩
  rw [tokenize_eq_ok_iff, Text.stripComments_of_plain hplain, hreadings]

end FormScript
