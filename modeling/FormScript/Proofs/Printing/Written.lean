import FormScript.Proofs.Consumption
import FormScript.Proofs.Places
import FormScript.Proofs.Printing.Token

/-!
# Written tokens are read back

`writtenText` writes tokens one after the other, each with the blanks behind it, and `Spread` says
when these keep them apart. A scanner that is called until the end of input then gives the tokens
back, on the lines where they were written (`answers_of_writtenText`): behind each token it stands
between what has been written so far and the rest, and there the next one is the longest token
(`Token.Spellable.munch`), whatever was written before. Comments play no part, since a scanner does
not know of them.
-/

namespace FormScript

/-- The text that writes tokens, each with the blanks behind it. -/
def writtenText (w : List (Token × List Char)) : List Char :=
  w.flatMap fun entry => entry.1.spelling ++ entry.2

/-- Tokens that a text can write, with blanks behind each of them. Only behind the last one there
need not be any. -/
structure Spread (w : List (Token × List Char)) : Prop where
  spellable : ∀ entry ∈ w, entry.1.Spellable
  blank : ∀ entry ∈ w, ∀ c ∈ entry.2, isBlank c = true
  apart : ∀ entry ∈ w.dropLast, entry.2 ≠ []

/-- The tokens with the lines and bytes at which they stand, behind the text `before`, and the end
of input. -/
def writtenLexemes (before : List Char) : List (Token × List Char) → List Lexeme
  | [] => [(Scanner.between before []).endLexeme]
  | (token, blanks) :: w =>
    ⟨token, 1 + before.count '\n', byteLength before, byteLength (before ++ token.spelling)⟩ ::
      writtenLexemes (before ++ token.spelling ++ blanks) w

section
variable {token : Token} {blanks : List Char} {w : List (Token × List Char)}

/-- The first token, with the blanks behind it, comes first. -/
theorem writtenText_cons :
    writtenText ((token, blanks) :: w) = token.spelling ++ (blanks ++ writtenText w) := by
  rw [writtenText, List.flatMap_cons, List.append_assoc]
  rfl

/-- What stands behind the first of spread tokens is spread. -/
theorem Spread.tail (h : Spread ((token, blanks) :: w)) : Spread w where
  spellable entry hentry := h.spellable entry (.tail _ hentry)
  blank entry hentry := h.blank entry (.tail _ hentry)
  apart entry hentry := by
    refine h.apart entry ?_
    cases w with
    | nil => cases hentry
    | cons next w => exact .tail _ hentry

/-- Behind a token there is a blank or the end of the text. -/
theorem Spread.separated (h : Spread ((token, blanks) :: w)) :
    Separated (blanks ++ writtenText w) := by
  have hblanks : ∀ c ∈ blanks, isBlank c = true := h.blank _ (.head _)
  cases blanks with
  | cons c cs =>
    rintro _ ⟨⟩
    exact hblanks c (.head _)
  | nil =>
    cases w with
    | nil => rintro _ ⟨⟩
    | cons next w => exact absurd rfl (h.apart (token, []) (.head _))

/-- What was written before a token is what stands before the tokens from there on. -/
theorem writtenLexemes_line (before : List Char) (w : List (Token × List Char)) {k : Nat}
    {lexeme : Lexeme} (h : (writtenLexemes before w)[k]? = some lexeme) :
    lexeme.line = 1 + (before ++ writtenText (w.take k)).count '\n' := by
  induction w generalizing before k with
  | nil =>
    cases k with
    | succ k => cases h
    | zero =>
      cases h
      rw [List.take_nil, writtenText, List.flatMap_nil, List.append_nil]
      rfl
  | cons entry w ih =>
    obtain ⟨token, blanks⟩ := entry
    cases k with
    | zero =>
      cases h
      rw [List.take_zero, writtenText, List.flatMap_nil, List.append_nil]
    | succ k =>
      rw [ih _ h, List.take_succ_cons, writtenText_cons, List.append_assoc, List.append_assoc]

/-- The written tokens are the given ones, with the end of input behind them. -/
theorem tokens_writtenLexemes (before : List Char) (w : List (Token × List Char)) :
    (writtenLexemes before w).map Lexeme.token = w.map Prod.fst ++ [.endOfInput] := by
  induction w generalizing before with
  | nil => rfl
  | cons entry w ih => rw [writtenLexemes, List.map_cons, ih, List.map_cons, List.cons_append]

end

namespace Scanner

/-- A call more behind a scanner is a call less behind its next state. -/
theorem after_succ (s : Scanner) (n : Nat) : s.after (n + 1) = s.next.2.after n := by
  induction n with
  | zero => rfl
  | succ n ih => rw [after, ih, after]

/-- The first answer, and then those of the scanner that it leaves. -/
theorem answers_succ (s : Scanner) (n : Nat) :
    s.answers (n + 1) = s.next.1 :: s.next.2.answers n := by
  induction n with
  | zero => rfl
  | succ n ih => rw [answers, ih, after_succ, answers, List.cons_append]

/-- One call for each token and one more for the end of input read a written text, wherever it
stands. -/
theorem answers_between {w : List (Token × List Char)} (h : Spread w) (before blanks : List Char)
    (hblanks : ∀ c ∈ blanks, isBlank c = true) :
    (between before (blanks ++ writtenText w)).answers (w.length + 1) =
      (writtenLexemes (before ++ blanks) w).map .ok := by
  induction w generalizing before blanks with
  | nil =>
    rw [writtenText, List.flatMap_nil, List.append_nil, answers_succ, next_between_nil hblanks]
    rfl
  | cons entry w ih =>
    obtain ⟨token, gap⟩ := entry
    obtain ⟨c, cs, hspell, hc, hmunch⟩ := (h.spellable _ (.head _)).munch h.separated
    have hnext := @next_between_ok before blanks c _ token _ hblanks hc hmunch
    rw [← List.cons_append, ← hspell, List.take_left, List.drop_left] at hnext
    rw [writtenText_cons, answers_succ, hnext, writtenLexemes, List.map_cons, List.length_cons,
      ih h.tail _ _ (h.blank _ (.head _)), count_newline_append_blanks before hblanks]

end Scanner

/-- Scanning undoes writing. Tokens that a text can write, with blanks between neighbours, are read
back by a scanner that is called until the end of input, none of its answers is an error, and the
line of each token is one more than the number of newlines written before it. -/
theorem answers_of_writtenText {w : List (Token × List Char)} (h : Spread w) :
    ∃ lexemes : List Lexeme,
      (Scanner.ofText (String.ofList (writtenText w))).answers (w.length + 1) = lexemes.map .ok ∧
      lexemes.map Lexeme.token = w.map Prod.fst ++ [.endOfInput] ∧
      ∀ k lexeme, lexemes[k]? = some lexeme →
      lexeme.line = 1 + (writtenText (w.take k)).count '\n' := by
  have hanswers := Scanner.answers_between h [] [] (List.forall_mem_nil _)
  rw [List.nil_append, List.nil_append] at hanswers
  refine ⟨writtenLexemes [] w, ?_, tokens_writtenLexemes [] w, fun k lexeme hk => ?_⟩
  · rw [Scanner.ofText_eq_between, String.toList_ofList, hanswers]
  · rw [writtenLexemes_line [] w hk, List.nil_append]

/-- Tokens that would be others without the blanks, or with other blanks: a text with a comment sign
and a newline in it, a name that starts with a keyword, the keyword, the largest integer, and marks
that start alike. -/
def Sample.spread : List (Token × List Char) :=
  [(.text "a // é\n", [' ']), (.newline, ['\t', ' ']), (.identifier "form_1", [' ']),
    (.keyword .form, ['\t']), (.integer Int64.maxValue, [' ', ' ']), (.mark .equalEqual, [' ']),
    (.mark .assign, [' ']), (.mark .slash, [' ']), (.mark .slash, [])]

open Sample in
/-- Tokens that are all read back, although their texts could be taken for others. -/
theorem answers_of_writtenText_spread :
    Spread spread ∧ ∃ lexemes : List Lexeme,
    (Scanner.ofText (String.ofList (writtenText spread))).answers 10 = lexemes.map .ok ∧
    lexemes.map Lexeme.token = spread.map Prod.fst ++ [.endOfInput] ∧
    ∀ k lexeme, lexemes[k]? = some lexeme →
    lexeme.line = 1 + (writtenText (spread.take k)).count '\n' := by
  have htext : '"' ∉ "a // é\n".toList := by decide
  have hname : isName "form_1" = true ∧ ∀ entry ∈ Token.reserved, entry.1 ≠ "form_1" := by decide
  have hlargest : 0 ≤ Int64.maxValue.toInt := by decide
  have h : Spread spread := by
    refine ⟨?_, by simp [spread, isBlank], by simp [spread]⟩
    simp only [spread, List.forall_mem_cons]
    exact ⟨htext, trivial, hname, trivial, hlargest, trivial, trivial, trivial, trivial,
      List.forall_mem_nil _⟩
  exact ⟨h, answers_of_writtenText h⟩

end FormScript
