import FormScript.Proofs.Patterns
import FormScript.Proofs.Reading.Program

/-!
# The lines of tokens

The lines of readings do not decrease (`Scanner.pairwise_line_readings`), and what a token adds to
them is the number of newlines that it holds: one for a line end, and those of its content for a
string literal. So the line of a token is that of an earlier one and the newlines in the tokens from
there on (`TokenStream.Consecutive`).
-/

namespace FormScript

/-! ## Newlines in tokens -/

/-- The characters of a token that a newline can be among. -/
def Token.content : Token → List Char
  | text content => content.toList
  | newline => ['\n']
  | _ => []

/-- The number of newlines in tokens. -/
def newlinesIn (w : List Lexeme) : Nat :=
  (w.flatMap fun l => l.token.content).count '\n'

/-- The newlines in tokens add up. -/
theorem newlinesIn_append (v w : List Lexeme) :
    newlinesIn (v ++ w) = newlinesIn v + newlinesIn w := by
  rw [newlinesIn, List.flatMap_append, List.count_append]
  rfl

/-- A token has the newlines of its content. -/
theorem newlinesIn_token {l : Lexeme} {token : Token} (h : l.token = token) :
    newlinesIn [l] = token.content.count '\n' := by
  rw [newlinesIn, List.flatMap_singleton, h]

/-- The newlines of the first token count too. -/
theorem newlinesIn_cons (l : Lexeme) (w : List Lexeme) :
    newlinesIn (l :: w) = newlinesIn [l] + newlinesIn w :=
  newlinesIn_append [l] w

/-- The newlines among the characters of a token are those of its content. -/
theorem Pattern.Makes.count_newline {p : Pattern} {w : List Char} {token : Token}
    (h : p.Makes w token) (hw : w ∈ p.language) : w.count '\n' = token.content.count '\n' := by
  have hword : p.start = .letter → w.count '\n' = 0 := fun hp =>
    List.count_eq_zero.2 fun hmem => nomatch isWordPart_of_mem hp hw _ hmem
  cases h with
  | integer =>
    obtain ⟨c, cs, rfl, hc, hcs⟩ := mem_integer.1 hw
    refine List.count_eq_zero.2 fun hmem => ?_
    cases hmem with
    | head => cases hc
    | tail _ hmem => cases hcs _ hmem
  | quoted content => simp [Token.content]
  | boolean | typeName | fieldKind | keyword | identifier => exact hword rfl
  | mark m =>
    obtain rfl : w = m.text.toList := hw
    cases m <;> rfl
  | newline =>
    obtain rfl : w = ['\n'] := hw
    rfl

/-! ## Lines of readings -/

namespace Scanner

/-- A reading is at the line where the scanner stands, and what follows it is not before. -/
theorem line_of_step? {s after : Scanner} {reading : Reading}
    (h : s.step? = some (reading, after)) : reading.line = s.line ∧ s.line ≤ after.line := by
  obtain ⟨c, cs, length, -, rfl, ⟨token, -, rfl⟩ | ⟨fault, -, rfl⟩⟩ := step?_cases h
  · exact ⟨rfl, Nat.le_add_right _ _⟩
  · exact ⟨rfl, Nat.le_add_right _ _⟩

/-- No reading is at a line before that of the scanner. -/
theorem le_line_of_mem_readings {s : Scanner} {reading : Reading} (h : reading ∈ s.readings) :
    s.line ≤ reading.line := by
  induction s using induction_readings with
  | stop s hstep =>
    rw [readings_of_none hstep, List.mem_singleton] at h
    exact h ▸ Nat.le_refl _
  | step s first after hstep ih =>
    obtain ⟨hline, hle⟩ := line_of_step? hstep
    rw [readings_of_some hstep] at h
    cases h with
    | head => exact Nat.le_of_eq hline.symm
    | tail _ h => exact Nat.le_trans hle (ih h)

/-- The lines of readings do not decrease. -/
theorem pairwise_line_readings (s : Scanner) :
    s.readings.Pairwise fun r r' => r.line ≤ r'.line := by
  induction s using induction_readings with
  | stop s hstep =>
    rw [readings_of_none hstep]
    exact List.pairwise_singleton _ _
  | step s first after hstep ih =>
    obtain ⟨hline, hle⟩ := line_of_step? hstep
    rw [readings_of_some hstep]
    exact .cons (fun reading hmem => hline ▸ Nat.le_trans hle (le_line_of_mem_readings hmem)) ih

/-- Behind a token a scanner is as many lines further as there are newlines in the token. -/
theorem line_of_step?_ok {s after : Scanner} {l : Lexeme} (h : s.step? = some (.ok l, after)) :
    after.line = s.line + newlinesIn [l] := by
  obtain ⟨c, cs, length, hrest, hmunch, rfl⟩ := step?_ok h
  obtain ⟨p, w, rfl, chosen, makes⟩ := Pattern.exists_chosen_of_munch hmunch
  have hcount := makes.count_newline chosen.matched
  rw [List.prefix_iff_eq_take.1 chosen.front] at hcount
  rw [newlinesIn, List.flatMap_singleton, ← hcount]
  simp only [pass, skip, hrest]
  rfl

/-- A token is as many lines behind a scanner as there are newlines in the tokens before it. -/
theorem line_of_readings {s : Scanner} {w : List Lexeme} {l : Lexeme} {rest : List Reading}
    (h : s.readings = w.map .ok ++ .ok l :: rest) : l.line = s.line + newlinesIn w := by
  induction w generalizing s with
  | nil =>
    cases hstep : s.step? with
    | none =>
      rw [readings_of_none hstep] at h
      cases h
      rfl
    | some next =>
      obtain ⟨reading, after⟩ := next
      rw [readings_of_some hstep] at h
      obtain ⟨rfl, -⟩ := List.cons.inj h
      exact (line_of_step? hstep).1
  | cons l' w ih =>
    cases hstep : s.step? with
    | none =>
      rw [readings_of_none hstep] at h
      simp at h
    | some next =>
      obtain ⟨reading, after⟩ := next
      rw [readings_of_some hstep] at h
      obtain ⟨rfl, hafter⟩ := List.cons.inj h
      rw [ih hafter, line_of_step?_ok hstep, newlinesIn_cons l' w, Nat.add_assoc]

end Scanner

/-- The lines of the tokens of a source never go back. -/
theorem pairwise_line_of_tokenize {source : String} {lexemes : List Lexeme}
    (h : tokenize source = .ok lexemes) : lexemes.Pairwise fun l l' => l.line ≤ l'.line := by
  have hreadings := (Scanner.ofText (Text.stripComments source)).pairwise_line_readings
  rw [tokenize_eq_ok_iff.1 h, List.pairwise_map] at hreadings
  exact hreadings

/-! ## Lines in a stream -/

namespace TokenStream

/-- The lexemes `w` stand between `s` and `s'`. -/
def Lexes (s : TokenStream) (w : List Lexeme) (s' : TokenStream) : Prop :=
  s.pending = w.map .ok ++ s'.pending

/-- The lines of tokens are counted by the newlines in the tokens before them. -/
def Consecutive (s : TokenStream) : Prop :=
  ∀ w s', s.Lexes w s' → s'.current.line = s.current.line + newlinesIn w

section
variable {s s₁ s' : TokenStream} {token : Token} {v w : List Lexeme}

/-- No lexemes stand between a stream and itself. -/
theorem Lexes.refl (s : TokenStream) : s.Lexes [] s :=
  rfl

/-- The lexemes of two ways stand one behind the other. -/
theorem Lexes.trans (h : s.Lexes v s₁) (h' : s₁.Lexes w s') : s.Lexes (v ++ w) s' := by
  rw [Lexes, List.map_append, List.append_assoc, ← h', ← h]

/-- The first of the lexemes is the lookahead. -/
theorem Lexes.current_eq {l : Lexeme} (h : s.Lexes (l :: w) s') : s.current = l :=
  Except.ok.inj (List.cons.inj h).1

/-- The lookahead that is taken stands between the streams. -/
theorem Takes.lexes (h : s.Takes token s') : s.Lexes [s.current] s' :=
  h.pending_eq

/-- What is skipped are line ends. -/
theorem Skips.lexes (h : s.Skips s') : ∃ w, s.Lexes w s' ∧ ∀ l ∈ w, l.token = .newline := by
  induction h with
  | @done s => exact ⟨[], .refl s, by simp⟩
  | more newline _ ih =>
    obtain ⟨w, hw, hnewlines⟩ := ih
    exact ⟨_, newline.lexes.trans hw, List.forall_mem_cons.2 ⟨newline.1, hnewlines⟩⟩

/-- Lines are still counted behind some of the tokens. -/
theorem Consecutive.lexes (hs : s.Consecutive) (h : s.Lexes v s₁) : s₁.Consecutive := by
  intro w s' h'
  rw [hs _ _ (h.trans h'), hs _ _ h, newlinesIn_append, Nat.add_assoc]

/-- The lines of the tokens of a text are counted. -/
theorem consecutive_of_ofText {text : String} (h : ofText text = .ok s) : s.Consecutive := by
  intro w s' h'
  have hreadings : (Scanner.ofText text).readings = s.pending := (ofText_ok h).1.symm
  have hcurrent : s.current.line = (Scanner.ofText text).line :=
    Scanner.line_of_readings (w := []) hreadings
  rw [hcurrent]
  exact Scanner.line_of_readings (hreadings.trans h')

/-- The tokens of a source are those between its stream and the end of input. -/
theorem tokenize_of_lexes {source : String} (h : ofText (Text.stripComments source) = .ok s)
    (hw : s.Lexes w s') (hend : s'.current.token = .endOfInput) :
    tokenize source = .ok (w ++ [s'.current]) := by
  have hahead := ahead_eq_nil_of_spans h ⟨w, hw, rfl⟩ hend
  rw [tokenize_eq_ok_iff, ← (ofText_ok h).1, hw, pending, hahead, List.map_append]
  rfl

end

end TokenStream

end FormScript
