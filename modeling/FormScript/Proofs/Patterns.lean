import Mathlib.Computability.Language
import Mathlib.Data.Nat.Digits.Defs
import FormScript.Proofs.Places
import FormScript.Proofs.Printing.Token

/-!
# Tokens as patterns

The tokens of a program are given by patterns: a language of texts for each kind of literal and for
names, and a single text for every fixed token. What is read in front of a text is the longest text
that some pattern matches there, and where a name and a reserved word match the same text, the
reserved word. `Pattern.Chosen` says which pattern that is and `Pattern.Makes` which token it makes
of its text; `Refuses` lists the texts in front of which there is none. The scanner knows nothing of
patterns: it looks at the first character and takes what follows as far as it goes on in the same
way. It reads what the patterns say, at every place that it comes to in a text
(`next_reads_longest`).
-/

namespace FormScript

open scoped Computability

/-! ## Patterns -/

/-- The kinds of texts that are tokens, and the text of a string that does not end. -/
inductive Pattern where
  | integer
  | quoted
  | unterminated
  | boolean (b : Bool)
  | typeName (type : Ty)
  | fieldKind (kind : FieldKind)
  | keyword (k : Keyword)
  | identifier
  | mark (m : Mark)
  | newline
  deriving DecidableEq, Repr

/-- The texts of one character that has a property. -/
def oneOf (P : Char → Prop) : Language Char :=
  {w | ∃ c, P c ∧ w = [c]}

/-- A decimal digit. -/
def IsDigit (c : Char) : Prop :=
  '0' ≤ c ∧ c ≤ '9'

/-- A letter of the Latin alphabet, or the underscore. -/
def IsLetter (c : Char) : Prop :=
  ('A' ≤ c ∧ c ≤ 'Z') ∨ ('a' ≤ c ∧ c ≤ 'z') ∨ c = '_'

/-- The texts that a pattern matches. -/
def Pattern.language : Pattern → Language Char
  | integer => oneOf IsDigit * (oneOf IsDigit)∗
  | quoted => {['"']} * (oneOf (· ≠ '"'))∗ * {['"']}
  | unterminated => {['"']} * (oneOf (· ≠ '"'))∗
  | boolean b => {(boolText b).toList}
  | typeName type => {type.keyword.toList}
  | fieldKind kind => {kind.keyword.toList}
  | keyword k => {k.text.toList}
  | identifier => oneOf IsLetter * (oneOf fun c => IsLetter c ∨ IsDigit c)∗
  | mark m => {m.text.toList}
  | newline => {['\n']}

/-- The number that decimal digits write, the lowest digit last. -/
def decimal (digits : List Char) : Nat :=
  Nat.ofDigits 10 (digits.reverse.map fun d => d.toNat - '0'.toNat)

/-- A pattern makes a token of a text that it matches. A string that does not end makes none. -/
inductive Pattern.Makes : Pattern → List Char → Token → Prop where
  | integer {w : List Char} {k : Int64} (value : k.toInt = decimal w) :
      Makes .integer w (.integer k)
  | quoted (content : String) : Makes .quoted ('"' :: (content.toList ++ ['"'])) (.text content)
  | boolean (b : Bool) (w : List Char) : Makes (.boolean b) w (.boolean b)
  | typeName (type : Ty) (w : List Char) : Makes (.typeName type) w (.typeName type)
  | fieldKind (kind : FieldKind) (w : List Char) : Makes (.fieldKind kind) w (.fieldKind kind)
  | keyword (k : Keyword) (w : List Char) : Makes (.keyword k) w (.keyword k)
  | identifier (name : String) : Makes .identifier name.toList (.identifier name)
  | mark (m : Mark) (w : List Char) : Makes (.mark m) w (.mark m)
  | newline (w : List Char) : Makes .newline w .newline

/-- A pattern is chosen for the text `w` in front of `ahead`: no pattern matches a longer text
there, and a name is chosen only if no other pattern matches the same text. -/
structure Pattern.Chosen (p : Pattern) (w ahead : List Char) : Prop where
  front : w <+: ahead
  matched : w ∈ p.language
  longest : ∀ q w', w' <+: ahead → w' ∈ language q → w'.length ≤ w.length
  preferred : p = .identifier → ∀ q, w ∈ language q → q = .identifier

/-- No pattern matches a text in front of `ahead`. -/
def Unmatched (ahead : List Char) : Prop :=
  ∀ p w, w <+: ahead → w ∉ Pattern.language p

/-- Why there is no token in front of a text. -/
inductive Refuses : List Char → LexFault → Prop where
  | stray {c : Char} {cs : List Char} (unmatched : Unmatched (c :: cs)) (hand : c ≠ '&')
      (hor : c ≠ '|') :
    Refuses (c :: cs) (.unexpectedCharacter c)
  | loneAnd {cs : List Char} (unmatched : Unmatched ('&' :: cs)) :
    Refuses ('&' :: cs) (.incompleteOperator "&&" '&')
  | loneOr {cs : List Char} (unmatched : Unmatched ('|' :: cs)) :
    Refuses ('|' :: cs) (.incompleteOperator "||" '|')
  | tooLarge {w ahead : List Char} (chosen : Pattern.Chosen .integer w ahead)
      (large : 2 ^ 63 - 1 < decimal w) :
    Refuses ahead (.integerTooLarge (String.ofList w))
  | unterminated {cs : List Char} (opened : '"' ∉ cs) : Refuses ('"' :: cs) .unterminatedString

/-! ## What patterns match -/

/-- A repetition of single characters is a text of such characters. -/
theorem mem_kstar_oneOf {P : Char → Prop} {w : List Char} : w ∈ (oneOf P)∗ ↔ ∀ c ∈ w, P c := by
  rw [Language.mem_kstar]
  constructor
  · rintro ⟨parts, rfl, hparts⟩ c hc
    obtain ⟨part, hpart, hc⟩ := List.mem_flatten.1 hc
    obtain ⟨c', hc', rfl⟩ := hparts part hpart
    rwa [List.mem_singleton.1 hc]
  · intro h
    refine ⟨w.map fun c => [c], by rw [← List.flatMap_def, List.flatMap_singleton'],
      fun part hpart => ?_⟩
    obtain ⟨c, hc, rfl⟩ := List.mem_map.1 hpart
    exact ⟨c, h c hc, rfl⟩

/-- A single character in front of a language is the first of the text. -/
theorem mem_oneOf_mul {P : Char → Prop} {L : Language Char} {w : List Char} :
    w ∈ oneOf P * L ↔ ∃ c cs, w = c :: cs ∧ P c ∧ cs ∈ L := by
  rw [Language.mem_mul]
  constructor
  · rintro ⟨_, ⟨c, hc, rfl⟩, cs, hcs, rfl⟩
    exact ⟨c, cs, rfl, hc, hcs⟩
  · rintro ⟨c, cs, rfl, hc, hcs⟩
    exact ⟨[c], ⟨c, hc, rfl⟩, cs, hcs, rfl⟩

/-- The scanner takes decimal digits for digits. -/
theorem isDigit_iff {c : Char} : c.isDigit = true ↔ IsDigit c := by
  rw [IsDigit, Char.isDigit, Bool.and_eq_true, decide_eq_true_eq, decide_eq_true_eq]
  rfl

/-- The scanner lets names start with letters. -/
theorem isWordStart_iff {c : Char} : isWordStart c = true ↔ IsLetter c := by
  have hletter : c.isAlpha =
      (decide ('A' ≤ c ∧ c ≤ 'Z') || (decide ('a' ≤ c) && decide (c ≤ 'z'))) := rfl
  simp only [isWordStart, IsLetter, hletter, Bool.or_eq_true, Bool.and_eq_true, decide_eq_true_eq,
    or_assoc]

/-- The scanner lets names go on with letters and digits. -/
theorem isWordPart_iff {c : Char} : isWordPart c = true ↔ IsLetter c ∨ IsDigit c := by
  rw [← isWordStart_iff, ← isDigit_iff]
  simp only [isWordPart, isWordStart, Char.isAlphanum, Bool.or_eq_true]
  tauto

namespace Pattern

/-- The texts of integers are digits, one at least. -/
theorem mem_integer {w : List Char} :
    w ∈ integer.language ↔ ∃ c cs, w = c :: cs ∧ c.isDigit = true ∧ ∀ c ∈ cs, c.isDigit = true := by
  simp only [language, mem_oneOf_mul, mem_kstar_oneOf, isDigit_iff]

/-- The texts of names are those that the scanner takes for words. -/
theorem mem_identifier {w : List Char} :
    w ∈ identifier.language ↔
      ∃ c cs, w = c :: cs ∧ isWordStart c = true ∧ ∀ c ∈ cs, isWordPart c = true := by
  simp only [language, mem_oneOf_mul, mem_kstar_oneOf, isWordStart_iff, isWordPart_iff]

/-- A string that does not end is a quote and no other one behind it. -/
theorem mem_unterminated {w : List Char} :
    w ∈ unterminated.language ↔ ∃ body, w = '"' :: body ∧ '"' ∉ body := by
  rw [language, Language.mem_mul]
  constructor
  · rintro ⟨_, rfl, body, hbody, rfl⟩
    exact ⟨body, rfl, fun hmem => mem_kstar_oneOf.1 hbody _ hmem rfl⟩
  · rintro ⟨body, rfl, hbody⟩
    refine ⟨['"'], rfl, body, mem_kstar_oneOf.2 ?_, rfl⟩
    rintro c hc rfl
    exact hbody hc

/-- A string that ends stands between two quotes and holds none. -/
theorem mem_quoted {w : List Char} :
    w ∈ quoted.language ↔ ∃ body, w = '"' :: (body ++ ['"']) ∧ '"' ∉ body := by
  rw [show quoted.language = unterminated.language * {['"']} from rfl, Language.mem_mul]
  constructor
  · rintro ⟨w, hw, _, rfl, rfl⟩
    obtain ⟨body, rfl, hbody⟩ := mem_unterminated.1 hw
    exact ⟨body, rfl, hbody⟩
  · rintro ⟨body, rfl, hbody⟩
    exact ⟨'"' :: body, mem_unterminated.2 ⟨body, rfl, hbody⟩, ['"'], rfl, rfl⟩

end Pattern

/-! ## First characters -/

/-- What the first character of a text says about a token in front of it. -/
inductive Start where
  | digit
  | letter
  | quote
  | lineEnd
  | sign
  deriving DecidableEq, Repr

/-- What a character starts. -/
def startOf (c : Char) : Start :=
  if c.isDigit then .digit
  else if isWordStart c then .letter
  else if c = '"' then .quote
  else if c = '\n' then .lineEnd
  else .sign

/-- Every mark is among those that the scanner tries. -/
theorem Mark.mem_all (m : Mark) : m ∈ Mark.all := by
  cases m <;> decide

/-- Different marks have different texts. -/
theorem Mark.eq_of_text {m m' : Mark} (h : m.text.toList = m'.text.toList) : m = m' := by
  have hfront : ∀ m : Mark, Mark.atFront? m.text.toList = some m := by
    intro m
    cases m <;> rfl
  rw [← Option.some_inj, ← hfront m, h, hfront m']

namespace Pattern

/-- What the texts of a pattern start with. -/
def start : Pattern → Start
  | integer => .digit
  | boolean _ | typeName _ | fieldKind _ | keyword _ | identifier => .letter
  | quoted | unterminated => .quote
  | newline => .lineEnd
  | mark _ => .sign

section
variable {p q : Pattern} {c : Char} {w cs : List Char}

/-- A text of a pattern is not empty, and starts as the pattern says. -/
theorem exists_start (h : w ∈ p.language) : ∃ c cs, w = c :: cs ∧ startOf c = p.start := by
  cases p with
  | integer =>
    obtain ⟨c, cs, rfl, hc, -⟩ := mem_integer.1 h
    exact ⟨c, cs, rfl, if_pos hc⟩
  | identifier =>
    obtain ⟨c, cs, rfl, hc, -⟩ := mem_identifier.1 h
    refine ⟨c, cs, rfl, ?_⟩
    rw [startOf, if_neg (by simp [isDigit_eq_false_of_isWordStart hc]), if_pos hc]
    rfl
  | quoted =>
    obtain ⟨body, rfl, -⟩ := mem_quoted.1 h
    exact ⟨'"', _, rfl, rfl⟩
  | unterminated =>
    obtain ⟨body, rfl, -⟩ := mem_unterminated.1 h
    exact ⟨'"', _, rfl, rfl⟩
  | boolean b => cases b <;> exact ⟨_, _, h, rfl⟩
  | typeName type => cases type <;> exact ⟨_, _, h, rfl⟩
  | fieldKind kind => cases kind <;> exact ⟨_, _, h, rfl⟩
  | keyword k => cases k <;> exact ⟨_, _, h, rfl⟩
  | mark m => cases m <;> exact ⟨_, _, h, rfl⟩
  | newline => exact ⟨_, _, h, rfl⟩

/-- A pattern that matches in front of a text starts with its first character. -/
theorem start_of_front (hfront : w <+: c :: cs) (h : w ∈ p.language) : p.start = startOf c := by
  obtain ⟨c', cs', rfl, hstart⟩ := exists_start h
  rw [← hstart, (List.cons_prefix_cons.1 hfront).1]

/-- Among the texts in front of `c :: cs`, only those of patterns that start with `c` matter. -/
theorem Chosen.of_start (front : w <+: c :: cs) (matched : w ∈ p.language)
    (longest : ∀ (q : Pattern) (w' : List Char), q.start = startOf c → w' <+: c :: cs →
      w' ∈ q.language → w'.length ≤ w.length)
    (preferred : p = .identifier → ∀ q, w ∈ language q → q = .identifier) : p.Chosen w (c :: cs) :=
  ⟨front, matched, fun q w' hw' hq => longest q w' (start_of_front hw' hq) hw' hq, preferred⟩

/-- A text of characters of one class is no longer than all such characters in front. -/
theorem length_le_takeWhile {P : Char → Bool} {ahead : List Char} (hfront : w <+: ahead)
    (h : ∀ c ∈ w, P c = true) : w.length ≤ (ahead.takeWhile P).length := by
  obtain ⟨rest, rfl⟩ := hfront
  rw [List.takeWhile_append_of_pos h, List.length_append]
  exact Nat.le_add_right _ _

/-! ## Digits -/

/-- Behind a digit, an integer takes all digits that follow. -/
theorem chosen_integer (hc : c.isDigit = true) :
    integer.Chosen (c :: cs.takeWhile Char.isDigit) (c :: cs) := by
  have hstart : startOf c = .digit := if_pos hc
  refine .of_start (List.cons_prefix_cons.2 ⟨rfl, List.takeWhile_prefix _⟩)
    (mem_integer.2 ⟨c, _, rfl, hc, fun c => List.mem_takeWhile_imp⟩) ?_ nofun
  intro q w' hq hfront hw'
  rw [hstart] at hq
  cases q with
  | integer =>
    obtain ⟨c', cs', rfl, hc', hcs'⟩ := mem_integer.1 hw'
    rw [← List.takeWhile_cons_of_pos hc]
    exact length_le_takeWhile hfront (List.forall_mem_cons.2 ⟨hc', hcs'⟩)
  | _ => cases hq

/-- The scanner computes the number that digits write. -/
theorem decimal_eq_digitsValue (digits : List Char) : decimal digits = digitsValue digits := by
  rw [decimal, Nat.ofDigits_eq_foldr, List.foldr_map, List.foldr_reverse, digitsValue]
  congr
  funext n d
  exact Nat.add_comm _ _

/-! ## Words -/

/-- A word that is no name is reserved for the token that its pattern makes. -/
theorem lookup_reserved (hp : p.start = .letter) (hname : p ≠ .identifier) (hw : w ∈ p.language) :
    ∃ token, Token.reserved.lookup (String.ofList w) = some token ∧
      ∀ token', p.Makes w token' → token' = token := by
  cases p with
  | boolean b =>
    obtain rfl : w = _ := hw
    refine ⟨.boolean b, by cases b <;> decide, ?_⟩
    rintro _ ⟨⟩
    rfl
  | typeName type =>
    obtain rfl : w = _ := hw
    refine ⟨.typeName type, by cases type <;> decide, ?_⟩
    rintro _ ⟨⟩
    rfl
  | fieldKind kind =>
    obtain rfl : w = _ := hw
    refine ⟨.fieldKind kind, by cases kind <;> decide, ?_⟩
    rintro _ ⟨⟩
    rfl
  | keyword k =>
    obtain rfl : w = _ := hw
    refine ⟨.keyword k, by cases k <;> decide, ?_⟩
    rintro _ ⟨⟩
    rfl
  | identifier => exact absurd rfl hname
  | integer | quoted | unterminated | mark | newline => cases hp

/-- A reserved word is the only text of a pattern that makes its token. -/
theorem exists_reserved {word : String} {token : Token}
    (h : Token.reserved.lookup word = some token) :
    ∃ p, p.start = .letter ∧ p ≠ .identifier ∧ word.toList ∈ language p ∧ ∀ w, p.Makes w token := by
  obtain ⟨before, behind, heq, -⟩ := List.lookup_eq_some_iff.1 h
  have hmem : (word, token) ∈ Token.reserved := by simp [heq]
  simp only [Token.reserved, List.mem_append] at hmem
  rcases hmem with ((hmem | hmem) | hmem) | hmem
  · have htoken : ∃ b, (word, token) = (boolText b, .boolean b) := by
      rcases List.mem_pair.1 hmem with hmem | hmem
      · exact ⟨true, hmem⟩
      · exact ⟨false, hmem⟩
    obtain ⟨b, ⟨⟩⟩ := htoken
    exact ⟨.boolean b, rfl, nofun, rfl, .boolean b⟩
  · obtain ⟨type, -, ⟨⟩⟩ := List.mem_map.1 hmem
    exact ⟨.typeName type, rfl, nofun, rfl, .typeName type⟩
  · obtain ⟨kind, -, ⟨⟩⟩ := List.mem_map.1 hmem
    exact ⟨.fieldKind kind, rfl, nofun, rfl, .fieldKind kind⟩
  · obtain ⟨k, -, ⟨⟩⟩ := List.mem_map.1 hmem
    exact ⟨.keyword k, rfl, nofun, rfl, .keyword k⟩

/-- The texts of words hold word characters only. -/
theorem isWordPart_of_mem (hp : p.start = .letter) (hw : w ∈ p.language) :
    ∀ c ∈ w, isWordPart c = true := by
  cases p with
  | identifier =>
    obtain ⟨c, cs, rfl, hc, hcs⟩ := mem_identifier.1 hw
    exact List.forall_mem_cons.2 ⟨isWordPart_iff.2 (.inl (isWordStart_iff.1 hc)), hcs⟩
  | boolean b => exact hw ▸ isWordPart_of_isName (by cases b <;> decide)
  | typeName type => exact hw ▸ isWordPart_of_isName (by cases type <;> decide)
  | fieldKind kind => exact hw ▸ isWordPart_of_isName (by cases kind <;> decide)
  | keyword k => exact hw ▸ isWordPart_of_isName (by cases k <;> decide)
  | integer | quoted | unterminated | mark | newline => cases hp

/-- Behind a letter, the longest word is chosen, and a name only if it is no reserved word. -/
theorem chosen_word (hc : isWordStart c = true) (hp : c :: cs.takeWhile isWordPart ∈ p.language)
    (preferred : p = .identifier → ∀ q, c :: cs.takeWhile isWordPart ∈ language q →
      q = .identifier) : p.Chosen (c :: cs.takeWhile isWordPart) (c :: cs) := by
  have hstart : startOf c = .letter := by
    rw [startOf, if_neg (by simp [isDigit_eq_false_of_isWordStart hc]), if_pos hc]
  refine .of_start (List.cons_prefix_cons.2 ⟨rfl, List.takeWhile_prefix _⟩) hp ?_ preferred
  intro q w' hq hfront hw'
  rw [hstart] at hq
  have hpart : isWordPart c = true := isWordPart_iff.2 (.inl (isWordStart_iff.1 hc))
  rw [← List.takeWhile_cons_of_pos hpart]
  exact length_le_takeWhile hfront (isWordPart_of_mem hq hw')

/-! ## Strings -/

/-- Up to its next quote, a text with a quote is a string's content. -/
theorem exists_of_mem_quote (h : '"' ∈ cs) :
    ∃ rest, cs = cs.takeWhile (· != '"') ++ '"' :: rest := by
  cases hdrop : cs.dropWhile (· != '"') with
  | nil =>
    have hall := List.dropWhile_eq_nil_iff.1 hdrop _ h
    simp at hall
  | cons c rest =>
    have hhead := List.head?_dropWhile_not (· != '"') cs
    rw [hdrop] at hhead
    obtain rfl : c = '"' := by simpa using hhead
    refine ⟨rest, ?_⟩
    rw [← hdrop, List.takeWhile_append_dropWhile]

/-- Behind a quote, a string goes up to the next one. -/
theorem chosen_quoted (h : '"' ∈ cs) :
    quoted.Chosen ('"' :: (cs.takeWhile (· != '"') ++ ['"'])) ('"' :: cs) := by
  have hcontent : '"' ∉ cs.takeWhile (· != '"') := by
    intro hmem
    simpa using List.mem_takeWhile_imp hmem
  obtain ⟨rest, hcs⟩ := exists_of_mem_quote h
  refine .of_start ?_ (mem_quoted.2 ⟨_, rfl, hcontent⟩) ?_ nofun
  · refine List.cons_prefix_cons.2 ⟨rfl, rest, ?_⟩
    rw [List.append_assoc, List.singleton_append, ← hcs]
  intro q w' hq hfront hw'
  -- In front of the closing quote, a string's body is part of the content.
  have hbody : ∀ body, body <+: cs → '"' ∉ body →
      body.length ≤ (cs.takeWhile (· != '"')).length := by
    intro body hfront hbody
    refine length_le_takeWhile hfront fun c hc => ?_
    rw [bne_iff_ne]
    rintro rfl
    exact hbody hc
  cases q with
  | quoted =>
    obtain ⟨body, rfl, hquote⟩ := mem_quoted.1 hw'
    have hfront' : body <+: cs := (List.prefix_append _ _).trans (List.cons_prefix_cons.1 hfront).2
    have hle := hbody body hfront' hquote
    simp only [List.length_cons, List.length_append, List.length_nil]
    omega
  | unterminated =>
    obtain ⟨body, rfl, hquote⟩ := mem_unterminated.1 hw'
    have hle := hbody body (List.cons_prefix_cons.1 hfront).2 hquote
    simp only [List.length_cons, List.length_append, List.length_nil]
    omega
  | _ => cases hq

/-! ## Line ends and marks -/

/-- A newline is a token of its own. -/
theorem chosen_newline : newline.Chosen ['\n'] ('\n' :: cs) := by
  refine .of_start (List.cons_prefix_cons.2 ⟨rfl, List.nil_prefix⟩) rfl ?_ nofun
  intro q w' hq hfront hw'
  cases q with
  | newline => exact Nat.le_of_eq (congrArg List.length hw')
  | _ => cases hq

/-- Of two marks in front of a text, the longer one is found. -/
theorem chosen_mark {m : Mark} (hc : startOf c = .sign) (h : Mark.atFront? (c :: cs) = some m) :
    (mark m).Chosen m.text.toList (c :: cs) := by
  obtain ⟨hm, before, behind, hall, hbefore⟩ := List.find?_eq_some_iff_append.1 h
  refine .of_start (List.isPrefixOf_iff_prefix.1 hm) rfl ?_ nofun
  intro q w' hq hfront hw'
  rw [hc] at hq
  cases q with
  | mark m' =>
    obtain rfl : w' = _ := hw'
    have hsorted : Mark.all.Pairwise fun m m' => m'.text.toList.length ≤ m.text.toList.length := by
      decide
    rw [hall, List.pairwise_append, List.pairwise_cons] at hsorted
    have hmem := Mark.mem_all m'
    rw [hall, List.mem_append, List.mem_cons] at hmem
    rcases hmem with hmem | rfl | hmem
    · have hnot := hbefore m' hmem
      rw [List.isPrefixOf_iff_prefix.2 hfront] at hnot
      cases hnot
    · exact Nat.le_refl _
    · exact hsorted.2.1.1 m' hmem
  | _ => cases hq

/-- Where no mark fits, no pattern matches. -/
theorem unmatched_of_no_mark (hc : startOf c = .sign) (h : Mark.atFront? (c :: cs) = none) :
    Unmatched (c :: cs) := by
  intro p w hfront hw
  have hp := start_of_front hfront hw
  rw [hc] at hp
  cases p with
  | mark m =>
    obtain rfl : w = _ := hw
    exact List.find?_eq_none.1 h m (Mark.mem_all m) (List.isPrefixOf_iff_prefix.2 hfront)
  | _ => cases hp

/-! ## The scanner -/

/-- A token that the scanner finds is the one that the patterns say. -/
theorem exists_chosen_of_munch {token : Token} {length : Nat}
    (h : munch c cs = (.ok token, length)) :
    ∃ p w, w.length = length ∧ Chosen p w (c :: cs) ∧ p.Makes w token := by
  unfold munch at h
  split at h
  next hdigit =>
    obtain ⟨htoken, rfl⟩ := Prod.mk.inj h
    refine ⟨.integer, _, rfl, chosen_integer hdigit, ?_⟩
    rw [integerToken] at htoken
    split at htoken
    next hle =>
      cases htoken
      refine .integer ?_
      rw [decimal_eq_digitsValue, Int64.toInt_ofNat_of_lt]
      change _ ≤ (9223372036854775807 : Int) at hle
      omega
    next => cases htoken
  next hdigit =>
  split at h
  next hletter =>
    obtain ⟨htoken, rfl⟩ := Prod.mk.inj h
    cases htoken
    cases hlookup : Token.reserved.lookup (String.ofList (c :: cs.takeWhile isWordPart)) with
    | some token =>
      obtain ⟨p, hp, hname, hw, hmakes⟩ := exists_reserved hlookup
      rw [String.toList_ofList] at hw
      refine ⟨p, _, rfl, chosen_word hletter hw fun heq => absurd heq hname, ?_⟩
      rw [Token.ofWord, hlookup]
      exact hmakes _
    | none =>
      have hname : c :: cs.takeWhile isWordPart ∈ identifier.language :=
        mem_identifier.2 ⟨c, _, rfl, hletter, fun c => List.mem_takeWhile_imp⟩
      refine ⟨.identifier, _, rfl, chosen_word hletter hname fun _ q hq => ?_, ?_⟩
      · by_contra hne
        have hstart := start_of_front (List.prefix_refl _) hq
        rw [← start_of_front (List.prefix_refl _) hname] at hstart
        obtain ⟨token, hsome, -⟩ := lookup_reserved hstart hne hq
        cases hlookup.symm.trans hsome
      · rw [Token.ofWord, hlookup]
        have hmakes := Makes.identifier (String.ofList (c :: cs.takeWhile isWordPart))
        rwa [String.toList_ofList] at hmakes
  next hletter =>
  split at h
  next hquote =>
    subst hquote
    simp only at h
    split at h
    next hclosed =>
      obtain ⟨htoken, rfl⟩ := Prod.mk.inj h
      cases htoken
      refine ⟨.quoted, _, ?_, chosen_quoted hclosed, ?_⟩
      · simp
      · have hmakes := Makes.quoted (String.ofList (cs.takeWhile (· != '"')))
        rwa [String.toList_ofList] at hmakes
    next => cases h
  next hquote =>
  split at h
  next hnewline =>
    subst hnewline
    cases h
    exact ⟨.newline, _, rfl, chosen_newline, .newline _⟩
  next hnewline =>
  split at h
  next m hmark =>
    cases h
    have hsign : startOf c = .sign := by
      rw [startOf, if_neg hdigit, if_neg hletter, if_neg hquote, if_neg hnewline]
    exact ⟨.mark m, _, String.length_toList, chosen_mark hsign hmark, .mark m _⟩
  next => cases h

/-- If the scanner finds no token, the patterns do not either, for the same reason. -/
theorem refuses_of_munch {fault : LexFault} {length : Nat}
    (h : munch c cs = (.error fault, length)) : Refuses (c :: cs) fault := by
  unfold munch at h
  split at h
  next hdigit =>
    obtain ⟨hfault, -⟩ := Prod.mk.inj h
    rw [integerToken] at hfault
    split at hfault
    next => cases hfault
    next hlarge =>
      cases hfault
      refine .tooLarge (chosen_integer hdigit) ?_
      rw [decimal_eq_digitsValue]
      change ¬ _ ≤ (9223372036854775807 : Int) at hlarge
      omega
  next hdigit =>
  split at h
  next => cases h
  next hletter =>
  split at h
  next hquote =>
    subst hquote
    simp only at h
    split at h
    next => cases h
    next hopen =>
      cases h
      exact .unterminated hopen
  next hquote =>
  split at h
  next => cases h
  next hnewline =>
  split at h
  next => cases h
  next hmark =>
    cases h
    have hsign : startOf c = .sign := by
      rw [startOf, if_neg hdigit, if_neg hletter, if_neg hquote, if_neg hnewline]
    have hunmatched := unmatched_of_no_mark hsign hmark
    by_cases hand : c = '&'
    · subst hand
      exact .loneAnd hunmatched
    by_cases hor : c = '|'
    · subst hor
      exact .loneOr hunmatched
    rw [strayCharacter, if_neg hand, if_neg hor]
    exact .stray hunmatched hand hor

/-! ## One reading for each text -/

variable {ahead w' : List Char} {token token' : Token}

/-- One text at most is chosen in front of another. -/
theorem Chosen.text_unique (h : p.Chosen w ahead) (h' : q.Chosen w' ahead) : w = w' := by
  have hlength : w.length = w'.length :=
    Nat.le_antisymm (h'.longest p w h.front h.matched) (h.longest q w' h'.front h'.matched)
  rw [List.prefix_iff_eq_take.1 h.front, hlength, ← List.prefix_iff_eq_take.1 h'.front]

/-- Patterns that match the same text start alike. -/
theorem start_unique (h : w ∈ p.language) (h' : w ∈ q.language) : p.start = q.start := by
  obtain ⟨c, cs, rfl, hc⟩ := exists_start h
  rw [← hc, start_of_front (List.prefix_refl _) h']

/-- Patterns other than names that match the same text make the same token of it. -/
theorem Makes.unique (hp : p ≠ .identifier) (hq : q ≠ .identifier) (h : w ∈ p.language)
    (h' : w ∈ q.language) (makes : p.Makes w token) (makes' : q.Makes w token') :
    token = token' := by
  have hstart := start_unique h h'
  by_cases hletter : p.start = .letter
  · obtain ⟨t, ht, hunique⟩ := lookup_reserved hletter hp h
    obtain ⟨t', ht', hunique'⟩ := lookup_reserved (hstart ▸ hletter) hq h'
    rw [hunique token makes, hunique' token' makes', ← Option.some_inj, ← ht, ht']
  cases makes with
  | integer value =>
    cases makes' with
    | integer value' => rw [Int64.toInt_inj.1 (value.trans value'.symm)]
    | _ => cases hstart
  | quoted content =>
    cases q with
    | quoted =>
      generalize hw : '"' :: (content.toList ++ ['"']) = w at makes'
      cases makes' with
      | quoted content' =>
        have hcontent := List.append_cancel_right (List.cons.inj hw).2
        rw [String.toList_inj.1 hcontent]
    | unterminated => cases makes'
    | _ => cases hstart
  | mark m =>
    cases makes' with
    | mark m' => rw [Mark.eq_of_text (h.symm.trans h')]
    | _ => cases hstart
  | newline =>
    cases makes' with
    | newline => rfl
    | _ => cases hstart
  | boolean | typeName | fieldKind | keyword | identifier => exact absurd rfl hletter

/-- No two patterns that are chosen make different tokens. -/
theorem Chosen.token_unique (h : p.Chosen w ahead) (h' : q.Chosen w ahead) (makes : p.Makes w token)
    (makes' : q.Makes w token') : token = token' := by
  by_cases hp : p = .identifier
  · obtain rfl := hp
    obtain rfl := h.preferred rfl q h'.matched
    generalize hw : w = w' at makes'
    cases makes with
    | identifier name =>
      cases makes' with
      | identifier name' => rw [String.toList_inj.1 hw]
  by_cases hq : q = .identifier
  · exact absurd (h'.preferred hq p h.matched) hp
  exact makes.unique hp hq h.matched h'.matched makes'

end

end Pattern

/-- Where no pattern matches, none is chosen. -/
theorem Unmatched.not_chosen {p : Pattern} {w ahead : List Char} (h : Unmatched ahead)
    (chosen : p.Chosen w ahead) : False :=
  h p w chosen.front chosen.matched

/-- A quote is always matched. -/
theorem Unmatched.head_ne_quote {cs : List Char} (h : Unmatched ('"' :: cs)) : False :=
  h .unterminated ['"'] (List.cons_prefix_cons.2 ⟨rfl, List.nil_prefix⟩)
    (Pattern.mem_unterminated.2 ⟨[], rfl, List.not_mem_nil⟩)

/-- In front of a text that opens a string, only patterns of strings are chosen. -/
theorem Pattern.Chosen.start_eq_quote {p : Pattern} {w cs : List Char}
    (h : p.Chosen w ('"' :: cs)) : p.start = .quote :=
  start_of_front h.front h.matched

/-- Where a token is refused, no chosen pattern makes one. -/
theorem Refuses.not_makes {ahead w : List Char} {fault : LexFault} {p : Pattern} {token : Token}
    (h : Refuses ahead fault) (chosen : p.Chosen w ahead) : ¬ p.Makes w token := by
  intro makes
  cases h with
  | stray unmatched | loneAnd unmatched | loneOr unmatched => exact unmatched.not_chosen chosen
  | tooLarge chosen' large =>
    obtain rfl := chosen.text_unique chosen'
    have hstart := Pattern.start_unique chosen.matched chosen'.matched
    cases makes with
    | @integer _ k value =>
      have hle := Int64.toInt_le k
      rw [value] at hle
      change _ ≤ (9223372036854775807 : Int) at hle
      omega
    | _ => cases hstart
  | unterminated opened =>
    have hstart := chosen.start_eq_quote
    have hfront := chosen.front
    cases makes with
    | quoted content =>
      have hmem : '"' ∈ content.toList ++ ['"'] := by simp
      exact opened ((List.cons_prefix_cons.1 hfront).2.subset hmem)
    | _ => cases hstart

/-- A token is refused for one reason. -/
theorem Refuses.unique {ahead : List Char} {fault fault' : LexFault} (h : Refuses ahead fault)
    (h' : Refuses ahead fault') : fault = fault' := by
  cases h with
  | stray unmatched hand hor =>
    cases h' with
    | stray => rfl
    | loneAnd => exact absurd rfl hand
    | loneOr => exact absurd rfl hor
    | tooLarge chosen => exact (unmatched.not_chosen chosen).elim
    | unterminated => exact unmatched.head_ne_quote.elim
  | loneAnd unmatched =>
    cases h' with
    | stray _ hand => exact absurd rfl hand
    | loneAnd => rfl
    | tooLarge chosen => exact (unmatched.not_chosen chosen).elim
  | loneOr unmatched =>
    cases h' with
    | stray _ _ hor => exact absurd rfl hor
    | loneOr => rfl
    | tooLarge chosen => exact (unmatched.not_chosen chosen).elim
  | tooLarge chosen =>
    cases h' with
    | stray unmatched | loneAnd unmatched | loneOr unmatched =>
      exact (unmatched.not_chosen chosen).elim
    | tooLarge chosen' => rw [chosen.text_unique chosen']
    | unterminated => cases chosen.start_eq_quote
  | unterminated =>
    cases h' with
    | stray unmatched => exact unmatched.head_ne_quote.elim
    | tooLarge chosen => cases chosen.start_eq_quote
    | unterminated => rfl

/-! ## What a scanner reads -/

/-- What stands in front of the text `ahead`, behind the text `before`: the token of the chosen
pattern with its line and its bytes, or the reason why there is none. -/
inductive ReadsLongest (before ahead : List Char) : Reading → Prop where
  | token {p : Pattern} {w : List Char} {token : Token} (chosen : p.Chosen w ahead)
      (makes : p.Makes w token) :
    ReadsLongest before ahead
      (.ok ⟨token, 1 + before.count '\n', byteLength before, byteLength (before ++ w)⟩)
  | fault {fault : LexFault} (refuses : Refuses ahead fault) :
    ReadsLongest before ahead (.error ⟨1 + before.count '\n', fault⟩)

/-- There is one reading at most in front of a text. -/
theorem ReadsLongest.unique {before ahead : List Char} {reading reading' : Reading}
    (h : ReadsLongest before ahead reading) (h' : ReadsLongest before ahead reading') :
    reading = reading' := by
  cases h with
  | token chosen makes =>
    cases h' with
    | token chosen' makes' =>
      obtain rfl := chosen.text_unique chosen'
      rw [chosen.token_unique chosen' makes makes']
    | fault refuses => exact absurd makes (refuses.not_makes chosen)
  | fault refuses =>
    cases h' with
    | token chosen makes => exact absurd makes (refuses.not_makes chosen)
    | fault refuses' => rw [refuses.unique refuses']

/-- Behind blanks, a scanner reads what the patterns say. -/
theorem Scanner.readsLongest_next {before blanks cs : List Char} {c : Char}
    (hblanks : ∀ c ∈ blanks, isBlank c = true) (hc : isBlank c = false) :
    ReadsLongest (before ++ blanks) (c :: cs) (between before (blanks ++ c :: cs)).next.1 := by
  have hline := count_newline_append_blanks before hblanks
  cases hfound : munch c cs with
  | mk found length =>
    cases found with
    | ok token =>
      obtain ⟨p, w, rfl, chosen, makes⟩ := Pattern.exists_chosen_of_munch hfound
      rw [next_between_ok hblanks hc hfound, ← hline, ← List.prefix_iff_eq_take.1 chosen.front]
      exact .token chosen makes
    | error fault =>
      rw [next_between_error hblanks hc hfound, ← hline]
      exact .fault (Pattern.refuses_of_munch hfound)

/-- The scanner of a text behind a number of calls. -/
def Scanner.behind (text : String) (calls : Nat) : Scanner :=
  (fun s : Scanner => s.next.2)^[calls] (ofText text)

/-- However often it was called, a scanner stands between two parts of its text. -/
theorem Scanner.exists_between (text : String) (calls : Nat) :
    ∃ before ahead, text.toList = before ++ ahead ∧ behind text calls = between before ahead := by
  induction calls with
  | zero => exact ⟨[], text.toList, rfl, rfl⟩
  | succ calls ih =>
    obtain ⟨before, ahead, htext, hs⟩ := ih
    obtain ⟨w, rest, rfl, hafter, -⟩ := next_between before ahead
    refine ⟨before ++ w, rest, by rw [htext, List.append_assoc], ?_⟩
    rw [behind, Function.iterate_succ_apply', ← hafter, ← hs]
    rfl

/-- Every call of a scanner goes on where the one before has stopped, passes over spaces and tabs,
and reads the longest text that a pattern matches there, or says why there is none; at the end of
the text it reads the end of input. -/
theorem next_reads_longest (text : String) (calls : Nat) :
    ∃ before blanks ahead, text.toList = before ++ blanks ++ ahead ∧
      Scanner.behind text calls = .between before (blanks ++ ahead) ∧
      (∀ c ∈ blanks, c = ' ' ∨ c = '\t') ∧ (∀ c ∈ ahead.head?, c ≠ ' ' ∧ c ≠ '\t') ∧
      (ahead = [] → (Scanner.behind text calls).next.1 =
        .ok ⟨.endOfInput, 1 + before.count '\n', byteLength text.toList, byteLength text.toList⟩) ∧
      (ahead ≠ [] → ∀ reading, (Scanner.behind text calls).next.1 = reading ↔
        ReadsLongest (before ++ blanks) ahead reading) := by
  obtain ⟨before, ahead, htext, hs⟩ := Scanner.exists_between text calls
  obtain ⟨blanks, ahead, rfl, hblanks, hahead⟩ := Scanner.exists_blanks ahead
  refine ⟨before, blanks, ahead, by rw [htext, List.append_assoc], hs, ?_, ?_, ?_, ?_⟩
  · intro c hc
    simpa [isBlank] using hblanks c hc
  · intro c hc
    simpa [isBlank] using hahead c hc
  · rintro rfl
    rw [List.append_nil] at hs htext
    rw [hs, Scanner.next_between_nil hblanks, Scanner.endLexeme, htext]
    simp only [Scanner.between, count_newline_append_blanks before hblanks]
  · intro hne reading
    cases ahead with
    | nil => exact absurd rfl hne
    | cons c cs =>
      have hread : ReadsLongest (before ++ blanks) (c :: cs) (Scanner.behind text calls).next.1 :=
        hs ▸ Scanner.readsLongest_next hblanks (hahead c rfl)
      constructor
      · rintro rfl
        exact hread
      · exact hread.unique

end FormScript
