import FormScript.Grammar.Program
import FormScript.Proofs.Reading.Block
import FormScript.Proofs.Scanning

/-!
# How programs are read

`ReadsProgram d s n s'` says that the stream `s` is a whole program with the tree `n`. A tree that
`parse` gives has such a reading within `maxDepth` levels (`parse_ok`). Conversely, `parse` gives
the tree of every reading within these levels (`ReadsProgram.parse_eq`), and a text with a deeper
reading fails for too deep nesting (`ReadsProgram.parse_tooDeep`).
-/

namespace FormScript

namespace TokenStream

/-- A stream over a text offers the readings of the text, with no level open. -/
theorem ofText_ok {text : String} {s : TokenStream} (h : ofText text = .ok s) :
    s.pending = (Scanner.ofText text).readings ∧ s.depth = 0 := by
  rw [ofText] at h
  obtain ⟨before, last, heq, -, -⟩ := (Scanner.ofText text).readings_eq
  cases hreadings : (Scanner.ofText text).readings with
  | nil => simp [hreadings] at heq
  | cons reading ahead =>
    rw [hreadings] at h
    cases reading with
    | ok lexeme =>
      cases h
      exact ⟨rfl, rfl⟩
    | error e => cases h

/-- A text has no stream if its first reading is an error. -/
theorem ofText_error {text : String} {e : ParseError} (h : ofText text = .error e) :
    ∃ fault ahead, (Scanner.ofText text).readings = .error fault :: ahead ∧ e = .lexical fault := by
  rw [ofText] at h
  cases hreadings : (Scanner.ofText text).readings with
  | nil => simp [hreadings, ofReadings] at h
  | cons reading ahead =>
    rw [hreadings] at h
    cases reading with
    | ok lexeme => cases h
    | error fault =>
      cases h
      exact ⟨fault, ahead, rfl, rfl⟩

/-- The stream over a text comes to the end of input. -/
theorem ended_of_ofText {text : String} {s : TokenStream} (h : ofText text = .ok s) : s.Ended := by
  obtain ⟨before, last, heq, hlast, -⟩ := (Scanner.ofText text).readings_eq
  exact ⟨before, last, (ofText_ok h).1.trans heq, hlast⟩

/-- A stream over a text has no more readings ahead than the text has characters. -/
theorem length_ahead_le_of_ofText {text : String} {s : TokenStream} (h : ofText text = .ok s) :
    s.ahead.length ≤ text.toList.length := by
  have hreadings : s.ahead.length + 1 = (Scanner.ofText text).readings.length := by
    rw [← (ofText_ok h).1]
    rfl
  have hlength : (Scanner.ofText text).readings.length ≤ text.toList.length + 1 :=
    (Scanner.ofText text).length_readings_le
  omega

/-- Nothing stands behind the end of input. -/
theorem ahead_eq_nil_of_spans {text : String} {s s' : TokenStream} {w : List Token}
    (h : ofText text = .ok s) (hspan : s.Spans w s') (hend : s'.current.token = .endOfInput) :
    s'.ahead = [] := by
  obtain ⟨before, last, heq, -, hbefore⟩ := (Scanner.ofText text).readings_eq
  obtain ⟨lexemes, hpending, -⟩ := hspan
  rw [(ofText_ok h).1, heq, pending] at hpending
  rcases List.append_eq_append_iff.1 hpending with ⟨as, -, heq'⟩ | ⟨bs, rfl, heq'⟩
  · cases as with
    | nil => exact (List.cons.inj heq').2.symm
    | cons a as => simp at heq'
  · cases bs with
    | nil => exact (List.cons.inj heq').2
    | cons b bs =>
      obtain ⟨rfl, -⟩ := List.cons.inj heq'
      exact absurd hend (hbefore s'.current (by simp))

/-- A text whose tokens are all read has a stream that spells them. -/
theorem ofText_of_tokenize {source : String} {lexemes : List Lexeme}
    (h : tokenize source = .ok lexemes) :
    ∃ s w, ofText (Text.stripComments source) = .ok s ∧ s.Spells w ∧
      lexemes.map Lexeme.token = w ++ [.endOfInput] := by
  rw [tokenize_eq_ok_iff] at h
  obtain ⟨before, last, heq, hlast, -⟩ := (Scanner.ofText (Text.stripComments source)).readings_eq
  rw [h] at heq
  obtain ⟨ls, ls', rfl, -, hls'⟩ := List.map_eq_append_iff.1 heq
  obtain ⟨l, rfl, hl⟩ := List.map_eq_singleton_iff.1 hls'
  have htokens : (ls ++ [l]).map Lexeme.token = ls.map Lexeme.token ++ [.endOfInput] := by
    cases hl
    simp [hlast]
  cases hls : ls ++ [l] with
  | nil => simp at hls
  | cons l' ls'' =>
    rw [hls] at h htokens
    exact ⟨⟨l', ls''.map .ok, 0, 0⟩, ls.map Lexeme.token, by rw [ofText, h]; rfl,
      ⟨l' :: ls'', rfl, htokens⟩, htokens⟩

end TokenStream

namespace Grammar

open Parse

/-- A stream is read as a whole program. -/
inductive ReadsProgram : Nat → TokenStream → Node → TokenStream → Prop where
  | intro {s s₁ s₂ s' : TokenStream} {d : Nat} {n : Node} (before : s.Skips s₁)
      (read : ReadsBlock .block d s₁ [n] s₂) (behind : s₂.Skips s')
      (ends : s'.current.token = .endOfInput) :
    ReadsProgram d s n s'

section
variable {s s' : TokenStream} {d : Nat} {n : Node}

/-- A program that the parser accepts is read within the levels left. -/
theorem program_sound (hs : s.Ended) (h : program s = .ok n s') :
    ∃ d ≤ maxDepth - s.depth, ReadsProgram d s n s' := by
  obtain ⟨s₁, before, hs, h⟩ := skipNewlines_bind_ok hs h
  obtain ⟨n', s₂, h₂, h⟩ := bind_ok h
  rw [block, levelsLeft_bind, before.depth_eq] at h₂
  obtain ⟨hs, d, hd, read⟩ := block_sound _ hs h₂
  obtain ⟨s₃, behind, -, h⟩ := skipNewlines_bind_ok hs h
  rw [peek_bind] at h
  split at h
  · next ends =>
    cases h
    exact ⟨d, hd, before, read, behind, ends⟩
  · exact absurd h fail_ne_ok

/-- The run of a program gives what is read, where the levels suffice. -/
theorem ReadsProgram.yields (h : ReadsProgram d s n s') :
    Yields (program s) (d ≤ maxDepth - s.depth) n s' := by
  obtain ⟨before, read, behind, ends⟩ := h
  have hblock : ∀ levels, Yields (blockWithin levels "program" _) (d ≤ levels) n _ :=
    fun levels => read.yields levels "program" n rfl
  rw [program, bind_of_ok (skipNewlines_of_skips before), ← before.depth_eq]
  refine .followed (p := block "program") (hblock _) ?_
  rw [bind_of_ok (skipNewlines_of_skips behind), peek_bind, if_pos ends]
  rfl

end

section
variable {source : String} {s s' : TokenStream} {d : Nat} {n : Node}

/-- A source that is parsed has a stream, from which the program is read. -/
theorem program_of_parse_ok (h : parse source = .ok n) :
    ∃ s s', TokenStream.ofText (Text.stripComments source) = .ok s ∧ program s = .ok n s' := by
  cases hstream : TokenStream.ofText (Text.stripComments source) with
  | error e => simp [parse, hstream, bind, Except.bind] at h
  | ok s =>
    cases hprogram : program s with
    | error e s' => simp [parse, hstream, hprogram, bind, Except.bind] at h
    | ok root s' =>
      obtain ⟨rfl⟩ : root = n := by simpa [parse, hstream, hprogram, bind, Except.bind] using h
      exact ⟨s, s', rfl, hprogram⟩

/-- A source that is not parsed has no stream, or no program can be read from it. -/
theorem program_of_parse_error {e : ParseError} (h : parse source = .error e) :
    TokenStream.ofText (Text.stripComments source) = .error e ∨
    ∃ s s', TokenStream.ofText (Text.stripComments source) = .ok s ∧ program s = .error e s' := by
  cases hstream : TokenStream.ofText (Text.stripComments source) with
  | error e' =>
    obtain ⟨rfl⟩ : e' = e := by simpa [parse, hstream, bind, Except.bind] using h
    exact .inl rfl
  | ok s =>
    cases hprogram : program s with
    | ok root s' => simp [parse, hstream, hprogram, bind, Except.bind] at h
    | error e' s' =>
      obtain ⟨rfl⟩ : e' = e := by simpa [parse, hstream, hprogram, bind, Except.bind] using h
      exact .inr ⟨s, s', rfl, hprogram⟩

/-- A tree is read from the stream of its source text, within the deepest nesting. -/
theorem parse_ok (h : parse source = .ok n) :
    ∃ s s' d, TokenStream.ofText (Text.stripComments source) = .ok s ∧ d ≤ maxDepth ∧
      ReadsProgram d s n s' := by
  obtain ⟨s, s', hstream, hprogram⟩ := program_of_parse_ok h
  obtain ⟨d, hd, read⟩ := program_sound (TokenStream.ended_of_ofText hstream) hprogram
  exact ⟨s, s', d, hstream, Nat.le_trans hd (Nat.sub_le _ _), read⟩

/-- A source with a stream from which a program is read is parsed to this program. -/
theorem ReadsProgram.parse_eq (h : ReadsProgram d s n s')
    (hstream : TokenStream.ofText (Text.stripComments source) = .ok s) (hd : d ≤ maxDepth) :
    parse source = .ok n := by
  have hprogram := h.yields.1
  rw [(TokenStream.ofText_ok hstream).2] at hprogram
  simp [parse, hstream, hprogram hd, bind, Except.bind]

/-- A source text that is read as a program of deeper nesting fails for that. -/
theorem ReadsProgram.parse_tooDeep (h : ReadsProgram d s n s')
    (hstream : TokenStream.ofText (Text.stripComments source) = .ok s) (hd : maxDepth < d) :
    ∃ line construct,
    parse source = .error (.grammar ⟨line, .nestingTooDeep construct maxDepth⟩) := by
  have hprogram := h.yields.2
  rw [(TokenStream.ofText_ok hstream).2] at hprogram
  obtain ⟨line, construct, s'', heq⟩ := hprogram (Nat.not_le.2 hd)
  exact ⟨line, construct, by simp [parse, hstream, heq, bind, Except.bind]⟩

end

end Grammar

end FormScript
