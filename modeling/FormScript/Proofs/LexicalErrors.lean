import FormScript.Proofs.Contract
import FormScript.Proofs.Derivation.Complete
import FormScript.Proofs.Equality
import FormScript.Proofs.TokenLines

/-!
# Errors of the scanner in a parse

`tokenize` reads a whole text before anything else is done with it, `parse` reads on only when it
takes a token. Both come to the same first reading that is no token (`FirstError`): the parser takes
the readings in order and passes on none of the others, so it fails with that error or has failed
before, at a line that is not behind it (`parse_agrees_with_tokenize`).
-/

namespace FormScript

/-! ## The first error -/

/-- The first of the readings that is no token is the error `e`. -/
def FirstError (readings : List Reading) (e : LexError) : Prop :=
  ∃ (lexemes : List Lexeme) (behind : List Reading),
    readings = lexemes.map .ok ++ .error e :: behind

section
variable {readings : List Reading} {e : LexError}

/-- An error in front is the first one. -/
theorem firstError_error_cons {e' : LexError} : FirstError (.error e' :: readings) e ↔ e' = e := by
  constructor
  · rintro ⟨lexemes, behind, h⟩
    cases lexemes with
    | nil => exact Except.error.inj (List.cons.inj h).1
    | cons lexeme lexemes => cases (List.cons.inj h).1
  · rintro rfl
    exact ⟨[], readings, rfl⟩

/-- A token in front is no error. -/
theorem firstError_ok_cons {lexeme : Lexeme} :
    FirstError (.ok lexeme :: readings) e ↔ FirstError readings e := by
  constructor
  · rintro ⟨lexemes, behind, h⟩
    cases lexemes with
    | nil => cases (List.cons.inj h).1
    | cons first lexemes => exact ⟨lexemes, behind, (List.cons.inj h).2⟩
  · rintro ⟨lexemes, behind, rfl⟩
    exact ⟨lexeme :: lexemes, behind, rfl⟩

/-- Tokens in front of readings do not change which of them is the first error. -/
theorem firstError_append {lexemes : List Lexeme} :
    FirstError (lexemes.map .ok ++ readings) e ↔ FirstError readings e := by
  induction lexemes with
  | nil => rfl
  | cons lexeme lexemes ih => exact firstError_ok_cons.trans ih

end

/-- A text has no tokens if one of its readings is an error, and the first of them is reported. -/
theorem tokenize_eq_error_iff {source : String} {e : LexError} :
    tokenize source = .error e ↔
    FirstError (Scanner.ofText (Text.stripComments source)).readings e := by
  rw [tokenize]
  generalize (Scanner.ofText (Text.stripComments source)).readings = readings
  induction readings with
  | nil =>
    constructor
    · intro h
      cases h
    · rintro ⟨lexemes, behind, h⟩
      cases lexemes <;> cases h
  | cons reading readings ih =>
    rw [List.mapM_cons]
    cases reading with
    | error e' =>
      rw [firstError_error_cons]
      exact ⟨Except.error.inj, congrArg _⟩
    | ok lexeme =>
      rw [firstError_ok_cons, ← ih]
      cases readings.mapM id with
      | error e' => exact Iff.rfl
      | ok lexemes => simp [bind, Except.bind, pure, Except.pure]

/-- The parser takes the readings in their order and stops at the first error. It reports that one,
or a fault at a line that is not behind it. -/
def Parse.Contract.inOrder (readings : List Reading)
    (hlines : readings.Pairwise fun r r' => r.line ≤ r'.line) :
    Parse.Contract where
  offers pending := ∃ lexemes : List Lexeme, readings = lexemes.map .ok ++ pending
  line n := ∀ e, FirstError readings e → n ≤ e.line
  reports
    | .lexical e => FirstError readings e
    | .grammar g => ∀ e, FirstError readings e → g.line ≤ e.line
  line_of_offers {lexeme pending} h e he := by
    obtain ⟨lexemes, rfl⟩ := h
    obtain ⟨before, behind, rfl⟩ := firstError_ok_cons.1 (firstError_append.1 he)
    have hpairs := (List.pairwise_append.1 hlines).2.1
    exact List.rel_of_pairwise_cons hpairs (List.mem_append_right _ (.head _))
  offers_of_taken {lexeme pending} h := by
    obtain ⟨lexemes, rfl⟩ := h
    exact ⟨lexemes ++ [lexeme], by simp⟩
  reports_of_refused {e pending} h := by
    obtain ⟨lexemes, rfl⟩ := h
    exact ⟨lexemes, pending, rfl⟩
  reports_of_line h := h

/-- The parser and the scanner agree on errors of the scanner: the parser reports none but the one
that `tokenize` reports, it accepts no text that has one, and a text that has one it refuses with
this error or with a fault of grammar at a line that is not behind it. -/
theorem parse_agrees_with_tokenize (source : String) :
    (∀ e, parse source = .error (.lexical e) → tokenize source = .error e) ∧
    (∀ root, parse source = .ok root → ∃ lexemes, tokenize source = .ok lexemes) ∧
    ∀ e, tokenize source = .error e →
      parse source = .error (.lexical e) ∨ ∃ g, parse source = .error (.grammar g) ∧
      g.line ≤ e.line := by
  have hlines := (Scanner.ofText (Text.stripComments source)).pairwise_line_readings
  have hreports : ∀ {e}, parse source = .error e → (Parse.Contract.inOrder _ hlines).reports e :=
    Parse.Contract.parse_error ⟨[], rfl⟩
  have haccepts : ∀ root, parse source = .ok root → ∃ lexemes, tokenize source = .ok lexemes := by
    intro root h
    obtain ⟨lexemes, htokens, -⟩ := Grammar.derives_of_parse h
    exact ⟨lexemes, htokens⟩
  refine ⟨fun e h => tokenize_eq_error_iff.2 (hreports h), haccepts, fun e he => ?_⟩
  cases hparse : parse source with
  | ok root =>
    obtain ⟨lexemes, htokens⟩ := haccepts root hparse
    rw [htokens] at he
    cases he
  | error e' =>
    cases e' with
    | lexical e' =>
      have he' := tokenize_eq_error_iff.2 (hreports hparse)
      rw [he] at he'
      cases he'
      exact .inl rfl
    | grammar g => exact .inr ⟨g, rfl, hreports hparse e (tokenize_eq_error_iff.1 he)⟩

/-- A stray character behind a brace is an error for both, an empty program is none for either, and
a bracket that does not fit is a fault before the stray character behind it is read. -/
theorem parse_agrees_with_tokenize_stray :
    (∃ e, parse "\x7b\n#" = .error (.lexical e) ∧ tokenize "\x7b\n#" = .error e) ∧
    (∃ root, parse "\x7b\n\x7d" = .ok root ∧ ∃ lexemes, tokenize "\x7b\n\x7d" = .ok lexemes) ∧
    ∃ e, tokenize ")\n\n#" = .error e ∧
      (parse ")\n\n#" = .error (.lexical e) ∨ ∃ g, parse ")\n\n#" = .error (.grammar g) ∧
        g.line ≤ e.line) := by
  have hrefused : parse "\x7b\n#" = .error (.lexical ⟨2, .unexpectedCharacter '#'⟩) := by
    decide +kernel
  have haccepted : parse "\x7b\n\x7d" = .ok (.block ⟨0, 1⟩ []) := by decide +kernel
  have htokens : tokenize ")\n\n#" = .error ⟨3, .unexpectedCharacter '#'⟩ := by decide +kernel
  exact ⟨⟨_, hrefused, (parse_agrees_with_tokenize _).1 _ hrefused⟩,
    ⟨_, haccepted, (parse_agrees_with_tokenize _).2.1 _ haccepted⟩,
    ⟨_, htokens, (parse_agrees_with_tokenize _).2.2 _ htokens⟩⟩

end FormScript
