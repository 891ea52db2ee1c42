import FormScript.TokenStream
import FormScript.Proofs.Stream

/-!
# The readings of a text

Every list of readings ends with the end of input and holds it nowhere else, and `tokenize` succeeds
when no reading is an error. With both, a stream over a text that `tokenize` accepts spells its
tokens.
-/

namespace FormScript

/-- A token that no reserved word and no identifier is, is no word. -/
theorem Token.ofWord_ne {token : Token} (hreserved : ∀ entry ∈ Token.reserved, entry.2 ≠ token)
    (hname : ∀ name, Token.identifier name ≠ token) (word : String) :
    Token.ofWord word ≠ token := by
  rw [Token.ofWord]
  cases hfound : Token.reserved.lookup word with
  | none => exact hname word
  | some found =>
    obtain ⟨before, behind, heq, -⟩ := List.lookup_eq_some_iff.1 hfound
    exact hreserved (word, found) (by simp [heq])

/-- No word is the end of input. -/
theorem Token.ofWord_ne_endOfInput (word : String) : Token.ofWord word ≠ .endOfInput :=
  Token.ofWord_ne (by decide) (by simp) word

/-- No word is the end of a line. -/
theorem Token.ofWord_ne_newline (word : String) : Token.ofWord word ≠ .newline :=
  Token.ofWord_ne (by decide) (by simp) word

/-- No token of a text is the end of input. -/
theorem munch_ne_endOfInput (c : Char) (cs : List Char) : (munch c cs).1 ≠ .ok .endOfInput := by
  unfold munch
  split
  · simp only [integerToken]
    split <;> simp
  split
  · simpa using Token.ofWord_ne_endOfInput _
  split
  · simp only
    split <;> simp
  split
  · simp
  split <;> simp

/-! ## The lines of readings -/

section
variable {c : Char} {cs : List Char}

/-- A reading without newlines that is not the end of a line moves on by no line. -/
theorem linesRead_of_not_mem {found : Except LexFault Token} {characters : List Char}
    (hnewline : found ≠ .ok .newline) (hcount : '\n' ∉ characters) :
    linesRead found characters = characters.count '\n' := by
  rw [List.count_eq_zero.2 hcount]
  unfold linesRead
  split
  · exact absurd rfl hnewline
  · exact List.count_eq_zero.2 hcount
  · exact List.count_eq_zero.2 hcount
  · rfl

/-- A reading of a first character and those of its class behind it moves on by no line, if a
newline is not of that class. -/
theorem linesRead_takeWhile {p : Char → Bool} {found : Except LexFault Token}
    (hp : p '\n' = false) (hc : c ≠ '\n') (hnewline : found ≠ .ok .newline) :
    linesRead found ((c :: cs).take (c :: cs.takeWhile p).length) =
      ((c :: cs).take (c :: cs.takeWhile p).length).count '\n' := by
  have htake : (c :: cs).take (c :: cs.takeWhile p).length = c :: cs.takeWhile p := by
    rw [List.length_cons, List.take_succ_cons, List.cons_inj_right]
    exact (List.prefix_iff_eq_take.1 (List.takeWhile_prefix p)).symm
  rw [htake]
  refine linesRead_of_not_mem hnewline ?_
  rw [List.mem_cons, not_or]
  refine ⟨Ne.symm hc, fun hmem => ?_⟩
  rw [List.all_eq_true.1 List.all_takeWhile _ hmem] at hp
  cases hp

/-- A reading moves on by the newlines among the characters that it takes up. Only the end of a line
and what stands between quotes can hold any. -/
theorem linesRead_munch {found : Except LexFault Token} {length : Nat}
    (h : munch c cs = (found, length)) :
    linesRead found ((c :: cs).take length) = ((c :: cs).take length).count '\n' := by
  unfold munch at h
  split at h
  next hc =>
    cases h
    refine linesRead_takeWhile rfl ?_ ?_
    · rintro rfl
      cases hc
    · unfold integerToken
      split <;> simp
  split at h
  next hc =>
    cases h
    refine linesRead_takeWhile rfl ?_ ?_
    · rintro rfl
      cases hc
    · simpa using Token.ofWord_ne_newline _
  split at h
  · dsimp only at h
    split at h
    · cases h
      rfl
    · cases h
      rfl
  split at h
  next hc =>
    cases h
    rw [hc]
    rfl
  next hc =>
  split at h
  next mark hmark =>
    cases h
    refine linesRead_of_not_mem nofun ?_
    have hfront := List.isPrefixOf_iff_prefix.1 (List.find?_eq_some_iff_append.1 hmark).1
    rw [← String.length_toList, ← List.prefix_iff_eq_take.1 hfront]
    cases mark <;> decide
  · cases h
    refine linesRead_of_not_mem nofun ?_
    simpa using Ne.symm hc

end

namespace Scanner

/-- The place behind the next `n` characters and the lines that end among them. -/
def pass (s : Scanner) (n : Nat) : Scanner :=
  s.skip n ((s.rest.take n).count '\n')

section
variable {s after : Scanner} {c : Char} {cs : List Char} {length : Nat}

/-- Behind its blanks a scanner reads a token and stands behind it. -/
theorem step?_of_munch_ok {token : Token} (hrest : s.skipBlanks.rest = c :: cs)
    (h : munch c cs = (.ok token, length)) :
    s.step? = some (.ok ⟨token, s.skipBlanks.line, s.skipBlanks.offset,
      (s.skipBlanks.pass length).offset⟩, s.skipBlanks.pass length) := by
  unfold step? pass
  simp only [hrest, h, linesRead_munch h]

/-- Behind its blanks a scanner finds no token and stands behind what it has found. -/
theorem step?_of_munch_error {fault : LexFault} (hrest : s.skipBlanks.rest = c :: cs)
    (h : munch c cs = (.error fault, length)) :
    s.step? = some (.error ⟨s.skipBlanks.line, fault⟩, s.skipBlanks.pass length) := by
  unfold step? pass
  simp only [hrest, h, linesRead_munch h]

/-- Where only blanks follow there is nothing to read. -/
theorem step?_of_nil (hrest : s.skipBlanks.rest = []) : s.step? = none := by
  unfold step?
  simp only [hrest]

/-- Where a scanner reads nothing only blanks follow. -/
theorem rest_of_step?_eq_none (h : s.step? = none) : s.skipBlanks.rest = [] := by
  cases hrest : s.skipBlanks.rest with
  | nil => rfl
  | cons c cs =>
    unfold step? at h
    simp only [hrest] at h
    cases h

/-- What a scanner reads is what `munch` finds behind the blanks. -/
theorem step?_cases {reading : Reading} (h : s.step? = some (reading, after)) :
    ∃ c cs length, s.skipBlanks.rest = c :: cs ∧ after = s.skipBlanks.pass length ∧
      ((∃ token, munch c cs = (.ok token, length) ∧
          reading = .ok ⟨token, s.skipBlanks.line, s.skipBlanks.offset, after.offset⟩) ∨
        ∃ fault, munch c cs = (.error fault, length) ∧
          reading = .error ⟨s.skipBlanks.line, fault⟩) := by
  cases hrest : s.skipBlanks.rest with
  | nil =>
    rw [step?_of_nil hrest] at h
    cases h
  | cons c cs =>
    cases hfound : munch c cs with
    | mk found length =>
      cases found with
      | ok token =>
        rw [step?_of_munch_ok hrest hfound] at h
        cases h
        exact ⟨c, cs, length, rfl, rfl, .inl ⟨token, hfound, rfl⟩⟩
      | error fault =>
        rw [step?_of_munch_error hrest hfound] at h
        cases h
        exact ⟨c, cs, length, rfl, rfl, .inr ⟨fault, hfound, rfl⟩⟩

/-- A token that is read is the longest one behind the blanks. -/
theorem step?_ok {lexeme : Lexeme} (h : s.step? = some (.ok lexeme, after)) :
    ∃ c cs length, s.skipBlanks.rest = c :: cs ∧ munch c cs = (.ok lexeme.token, length) ∧
      after = s.skipBlanks.pass length := by
  obtain ⟨c, cs, length, hrest, hafter, ⟨token, hfound, hreading⟩ | ⟨fault, -, hreading⟩⟩ :=
    step?_cases h
  · cases hreading
    exact ⟨c, cs, length, hrest, hfound, hafter⟩
  · cases hreading

end

/-- A scanner does not read the end of input where something follows. -/
theorem step?_ne_endOfInput {s after : Scanner} {lexeme : Lexeme}
    (h : s.step? = some (.ok lexeme, after)) : lexeme.token ≠ .endOfInput := by
  obtain ⟨c, cs, length, -, hfound, -⟩ := step?_ok h
  intro heq
  exact munch_ne_endOfInput c cs (by rw [hfound, heq])

/-- Where there is no step, the end of input is the only reading. -/
theorem readings_of_none {s : Scanner} (h : s.step? = none) :
    s.readings = [.ok s.skipBlanks.endLexeme] := by
  rw [readings]
  split <;> simp_all

/-- A step gives the first reading, and the others are those behind it. -/
theorem readings_of_some {s after : Scanner} {reading : Reading}
    (h : s.step? = some (reading, after)) : s.readings = reading :: after.readings := by
  rw [readings]
  split <;> simp_all

/-- Proves a property of all scanners along their readings. -/
theorem induction_readings {P : Scanner → Prop} (stop : ∀ s, s.step? = none → P s)
    (step : ∀ s reading after, s.step? = some (reading, after) → P after → P s) (s : Scanner) :
    P s := by
  induction hlen : s.rest.length using Nat.strongRecOn generalizing s with
  | ind length ih =>
    cases hstep : s.step? with
    | none => exact stop s hstep
    | some next =>
      obtain ⟨reading, after⟩ := next
      exact step s reading after hstep (ih _ (hlen ▸ length_rest_of_step? hstep) after rfl)

/-- The end of input stands behind all other readings, and none of them is an end of input. -/
theorem readings_eq (s : Scanner) : ∃ before last, s.readings = before ++ [.ok last] ∧
    last.token = .endOfInput ∧ ∀ lexeme, .ok lexeme ∈ before → lexeme.token ≠ .endOfInput := by
  induction s using induction_readings with
  | stop s h => exact ⟨[], s.skipBlanks.endLexeme, readings_of_none h, rfl, by simp⟩
  | step s reading after h ih =>
    obtain ⟨before, last, heq, hlast, hbefore⟩ := ih
    refine ⟨reading :: before, last, by rw [readings_of_some h, heq]; rfl, hlast, ?_⟩
    intro lexeme hmem
    cases hmem with
    | head => exact step?_ne_endOfInput h
    | tail _ hmem => exact hbefore lexeme hmem

/-- Every reading but the end of input takes a character of the text. -/
theorem length_readings_le (s : Scanner) : s.readings.length ≤ s.rest.length + 1 := by
  induction s using induction_readings with
  | stop s h =>
    rw [readings_of_none h]
    exact Nat.le_add_left 1 _
  | step s reading after h ih =>
    have := length_rest_of_step? h
    rw [readings_of_some h, List.length_cons]
    omega

end Scanner

/-- The tokens of a program are its readings, if none of them is an error. -/
theorem tokenize_eq_ok_iff {source : String} {lexemes : List Lexeme} :
    tokenize source = .ok lexemes ↔
      (Scanner.ofText (Text.stripComments source)).readings = lexemes.map .ok := by
  rw [tokenize]
  generalize (Scanner.ofText (Text.stripComments source)).readings = readings
  induction readings generalizing lexemes with
  | nil => cases lexemes <;> simp [pure, Except.pure]
  | cons reading readings ih =>
    rw [List.mapM_cons]
    cases reading with
    | error e => cases lexemes <;> simp [bind, Except.bind]
    | ok lexeme =>
      cases lexemes with
      | nil => cases readings.mapM id <;> simp [bind, Except.bind, pure, Except.pure]
      | cons l ls =>
        have htail := @ih ls
        cases hrest : readings.mapM id with
        | error e => simp_all [bind, Except.bind]
        | ok rest => simp_all [bind, Except.bind, pure, Except.pure]

end FormScript
