import Mathlib.Tactic.IntervalCases
import FormScript.Proofs.Bytes
import FormScript.Proofs.Patterns

/-!
# Tokens as spans of the text

Read to its end, a text is a row of blanks and tokens (`LaidOut`): between two tokens, and behind
the last one, stand only spaces and tabs, and every token starts where the blanks before it end. So
the spans of tokens leave out nothing but blanks and cover no byte twice (`Spans`). Tokens are read
off a text without its comments. Each of its lines is the same line of the source up to the first
`//` (`Text.lines_stripComments`), so the first byte of a token stands on the same line of the
source (`Lexeme.FoundIn`). Its column is the same too, except for a line end behind a comment.
-/

namespace FormScript

/-! ## Lines without their comments -/

namespace Text

/-- `cut` is `line` up to its first `//`, or all of it if there is none. -/
def IsBeforeComment (cut line : List Char) : Prop :=
  cut = line ∧ Plain line ∨ ∃ comment, line = cut ++ '/' :: '/' :: comment ∧ Plain (cut ++ ['/'])

/-- What is left of a line is what stands before its comment. -/
theorem isBeforeComment_cutComment (line : List Char) : IsBeforeComment (cutComment line) line := by
  fun_induction cutComment line with
  | case1 => exact .inl ⟨rfl, .nil⟩
  | case2 comment => exact .inr ⟨comment, rfl, .singleton _⟩
  | case3 c cs hslashes ih =>
    have hc : ∀ c' ∈ cs.head?, ¬ (c = '/' ∧ c' = '/') := by
      rintro c' hc' ⟨rfl, rfl⟩
      obtain ⟨rest, rfl⟩ := List.head?_eq_some_iff.1 hc'
      exact hslashes rest rfl rfl
    rcases ih with ⟨heq, hplain⟩ | ⟨comment, heq, hplain⟩
    · refine .inl ⟨by rw [heq], ?_⟩
      exact List.isChain_cons.2 ⟨hc, hplain⟩
    · refine .inr ⟨comment, congrArg (c :: ·) heq, ?_⟩
      have hhead : (cutComment cs ++ ['/']).head? = cs.head? := by
        generalize cutComment cs = cut at heq
        rw [heq]
        cases cut <;> rfl
      exact List.isChain_cons.2 ⟨hhead ▸ hc, hplain⟩

/-- What stands before a comment is the front of its line. -/
theorem IsBeforeComment.exists_eq_append {cut line : List Char} (h : IsBeforeComment cut line) :
    ∃ tail, line = cut ++ tail := by
  rcases h with ⟨rfl, -⟩ | ⟨comment, rfl, -⟩
  · exact ⟨[], (List.append_nil cut).symm⟩
  · exact ⟨_, rfl⟩

/-- The lines of a text without its comments are its lines, each up to its first comment sign. -/
theorem lines_stripComments (source : String) :
    List.Forall₂ IsBeforeComment (splitLines (stripComments source).toList)
      (splitLines source.toList) := by
  rw [splitLines_stripComments, List.forall₂_map_left_iff, List.forall₂_same]
  exact fun line _ => isBeforeComment_cutComment line

/-- Every character that is left when comments are cut off stands on the same line of the text, and
in the same column unless it is the newline behind a comment. -/
theorem exists_place_in_source {source : String} {before after : List Char} {c : Char}
    (h : (stripComments source).toList = before ++ c :: after) :
    ∃ before' after' line, source.toList = before' ++ c :: after' ∧
    before'.count '\n' = before.count '\n' ∧
      (splitLines source.toList)[before.count '\n']? = some line ∧
      (c ≠ '\n' ∨ Plain line → columnAt (encode source.toList) (byteLength before') =
        columnAt (encode (stripComments source).toList) (byteLength before)) := by
  obtain ⟨lines, front, hbefore, hfront, hcount, happend⟩ := exists_front before
  obtain ⟨line₁, rest, hsplit⟩ := exists_splitLines (c :: after)
  have hstripped := splitLines_stripComments source
  rw [h, happend _ _ _ hsplit] at hstripped
  obtain ⟨lines', rest', hsource, rfl, hrest⟩ := List.map_eq_append_iff.1 hstripped.symm
  obtain ⟨line, rest', rfl, hline, rfl⟩ := List.map_eq_cons_iff.1 hrest
  rw [List.length_map] at hcount
  have hlookup : (splitLines source.toList)[before.count '\n']? = some line := by
    rw [hsource, ← hcount, List.getElem?_append_right (Nat.le_refl _), Nat.sub_self]
    rfl
  have hcolumn :
      columnAt (encode (stripComments source).toList) (byteLength before) = byteLength front := by
    rw [h, hbefore, columnAt_append _ hfront]
  rw [hcolumn]
  obtain ⟨line₂, rest₂, hafter⟩ := exists_splitLines after
  rw [splitLines_cons, hafter, splitLines.step] at hsplit
  by_cases hc : c = '\n'
  · -- The newline ends its line, which a comment may have made longer.
    rw [if_pos hc] at hsplit
    obtain ⟨rfl, hmore⟩ := List.cons.inj hsplit
    obtain ⟨next, rest', rfl, -, -⟩ := List.map_eq_cons_iff.1 hmore.symm
    have hline' : '\n' ∉ line :=
      newline_not_mem_splitLines (hsource ▸ List.mem_append_right _ (.head _))
    obtain ⟨htext, hlines, hplace⟩ := place_of_splitLines hsource rfl hline'
    rw [List.flatMap_cons, List.cons_append, ← hc] at htext
    refine ⟨_, _, line, htext, hlines.trans hcount, hlookup, fun hplain => ?_⟩
    rw [hplace, ← List.append_nil front, ← hline,
      cutComment_of_plain (hplain.resolve_left (absurd hc))]
  · -- Any other character stands in front of the comment.
    rw [if_neg hc] at hsplit
    obtain ⟨rfl, -⟩ := List.cons.inj hsplit
    obtain ⟨tail, htail⟩ := (isBeforeComment_cutComment line).exists_eq_append
    rw [hline, List.append_assoc] at htail
    obtain ⟨htext, hlines, hplace⟩ := place_of_splitLines hsource
      (by rw [htail, List.append_assoc, List.cons_append, List.cons_append]) hfront
    exact ⟨_, _, line, htext, hlines.trans hcount, hlookup, fun _ => hplace⟩

end Text

/-! ## Blanks and tokens in a row -/

/-- Only a newline starts a line end. -/
theorem startOf_eq_lineEnd {c : Char} : startOf c = .lineEnd ↔ c = '\n' := by
  refine ⟨fun h => ?_, fun h => h ▸ rfl⟩
  rw [startOf] at h
  split_ifs at h with _ _ _ hc
  exact hc

/-- A token is a line end if it starts with a newline. -/
theorem Pattern.Makes.eq_newline_iff {p : Pattern} {w : List Char} {token : Token} {c : Char}
    (h : p.Makes w token) (hstart : p.start = startOf c) : token = .newline ↔ c = '\n' := by
  rw [← startOf_eq_lineEnd, ← hstart]
  cases h <;> simp [Pattern.start]

/-- The characters `ahead`, behind `before`, hold the given tokens with blanks between them, and the
end of input behind the last blanks. -/
inductive LaidOut : List Char → List Char → List Lexeme → Lexeme → Prop where
  | stop {before blanks : List Char} (hblanks : ∀ c ∈ blanks, isBlank c = true) :
    LaidOut before blanks [] (Scanner.between (before ++ blanks) []).endLexeme
  | token {before blanks cs rest : List Char} {c : Char} {token : Token} {tokens : List Lexeme}
      {last : Lexeme}
    (hblanks : ∀ c ∈ blanks, isBlank c = true) (hend : token ≠ .endOfInput)
    (hnewline : token = .newline ↔ c = '\n')
    (behind : LaidOut (before ++ blanks ++ c :: cs) rest tokens last) :
    LaidOut before (blanks ++ (c :: cs ++ rest))
      (⟨token, 1 + before.count '\n', byteLength (before ++ blanks),
        byteLength (before ++ blanks ++ c :: cs)⟩ :: tokens)
      last

/-- What a scanner reads without an error is laid out in its text. -/
theorem Scanner.laidOut_of_readings {before ahead : List Char} {lexemes : List Lexeme}
    (h : (between before ahead).readings = lexemes.map .ok) :
    ∃ tokens last, lexemes = tokens ++ [last] ∧ LaidOut before ahead tokens last := by
  induction lexemes generalizing before ahead with
  | nil =>
    obtain ⟨_, _, heq, -⟩ := (between before ahead).readings_eq
    simp [heq] at h
  | cons lexeme lexemes ih =>
    obtain ⟨blanks, rest, rfl, hblanks, hrest⟩ := exists_blanks ahead
    have hskip : (between before (blanks ++ rest)).skipBlanks = between (before ++ blanks) rest :=
      between_skipBlanks hblanks hrest
    cases hstep : (between before (blanks ++ rest)).step? with
    | none =>
      have hnil : rest = [] := by
        have hrest' := rest_of_step?_eq_none hstep
        rwa [hskip] at hrest'
      rw [readings_of_none hstep, hskip, hnil, List.map_cons] at h
      obtain ⟨hlexeme, hmore⟩ := List.cons.inj h
      obtain rfl := List.map_eq_nil_iff.1 hmore.symm
      obtain rfl := Except.ok.inj hlexeme
      refine ⟨[], _, rfl, ?_⟩
      rw [hnil, List.append_nil]
      exact .stop hblanks
    | some found =>
      obtain ⟨reading, after⟩ := found
      rw [readings_of_some hstep, List.map_cons] at h
      obtain ⟨rfl, hmore⟩ := List.cons.inj h
      have hend := step?_ne_endOfInput hstep
      obtain ⟨c, cs, length, hrest', hmunch, -⟩ := step?_ok hstep
      rw [hskip] at hrest'
      obtain rfl : rest = c :: cs := hrest'
      obtain ⟨p, w, rfl, chosen, makes⟩ := Pattern.exists_chosen_of_munch hmunch
      have hnext : (between before (blanks ++ c :: cs)).next = (.ok lexeme, after) := by
        rw [next, hstep, Option.getD_some]
      obtain ⟨rest, heq⟩ := chosen.front
      rw [next_between_ok hblanks (hrest c rfl) hmunch, ← heq, List.take_left,
        List.drop_left] at hnext
      obtain ⟨hlexeme, rfl⟩ := Prod.mk.inj hnext
      obtain ⟨c', w, rfl, hstart⟩ := Pattern.exists_start chosen.matched
      obtain ⟨tokens, last, rfl, hbehind⟩ := ih hmore
      refine ⟨_ :: tokens, last, congrArg (· :: (tokens ++ [last])) (Except.ok.inj hlexeme).symm,
        ?_⟩
      rw [← heq]
      exact .token hblanks hend (makes.eq_newline_iff hstart.symm) hbehind

/-- A byte of blanks is a space or a tab. -/
theorem Text.blank_of_mem_encode {blanks : List Char} (h : ∀ c ∈ blanks, isBlank c = true)
    {b : UInt8} (hb : b ∈ Text.encode blanks) : b = 32 ∨ b = 9 := by
  obtain ⟨c, hc, hb⟩ := List.mem_flatMap.1 hb
  have hblank := h c hc
  simp only [isBlank, Bool.or_eq_true, decide_eq_true_eq] at hblank
  rcases hblank with rfl | rfl
  · exact .inl (List.mem_singleton.1 hb)
  · exact .inr (List.mem_singleton.1 hb)

namespace LaidOut

section
variable {before ahead : List Char} {tokens : List Lexeme} {last : Lexeme}

/-- The end of input stands at the end of the text. -/
theorem last_eq (h : LaidOut before ahead tokens last) :
    last = (Scanner.between (before ++ ahead) []).endLexeme := by
  induction h with
  | stop => rfl
  | token _ _ _ _ ih => rw [ih, List.append_assoc, List.append_assoc]

/-- The tokens of a text are not empty and lie within it. -/
theorem bounds (h : LaidOut before ahead tokens last) : ∀ l ∈ tokens,
    byteLength before ≤ l.start ∧ l.start < l.stop ∧ l.stop ≤ byteLength (before ++ ahead) := by
  induction h with
  | stop => simp
  | @token before blanks cs rest c token tokens last hblanks _ _ _ ih =>
    have hpos : 0 < byteLength (c :: cs) := Nat.add_pos_left c.utf8Size_pos _
    simp only [List.forall_mem_cons, byteLength_append] at ih ⊢
    refine ⟨⟨by omega, by omega, by omega⟩, fun l hl => ?_⟩
    have := ih l hl
    omega

/-- Every token starts where the one before it has stopped, or behind that. -/
theorem pairwise (h : LaidOut before ahead tokens last) :
    tokens.Pairwise fun l l' => l.stop ≤ l'.start := by
  induction h with
  | stop => exact .nil
  | token _ _ _ hbehind ih => exact .cons (fun l hl => (hbehind.bounds l hl).1) ih

/-- Outside the tokens there are only spaces and tabs. -/
theorem blank_of_outside (h : LaidOut before ahead tokens last) {i : Nat} {b : UInt8}
    (hb : (Text.encode ahead)[i]? = some b)
    (houtside : ∀ l ∈ tokens, byteLength before + i < l.start ∨ l.stop ≤ byteLength before + i) :
    b = 32 ∨ b = 9 := by
  induction h generalizing i with
  | stop hblanks => exact Text.blank_of_mem_encode hblanks (List.mem_of_getElem? hb)
  | @token before blanks cs rest c token tokens last hblanks _ _ _ ih =>
    obtain ⟨hfirst, hrest⟩ := List.forall_mem_cons.1 houtside
    simp only [byteLength_append] at hfirst ih
    rcases hfirst with hin | hbehind
    · rw [Text.encode_append, List.getElem?_append_left (by rw [Text.length_encode]; omega)] at hb
      exact Text.blank_of_mem_encode hblanks (List.mem_of_getElem? hb)
    · obtain ⟨k, rfl⟩ : ∃ k, i = byteLength (blanks ++ c :: cs) + k :=
        ⟨i - byteLength (blanks ++ c :: cs), by rw [byteLength_append]; omega⟩
      rw [← List.append_assoc, Text.getElem?_encode_append] at hb
      refine ih hb fun l hl => ?_
      have := hrest l hl
      rw [byteLength_append] at this
      omega

/-- Where a token starts, and with which character. -/
theorem exists_first (h : LaidOut before ahead tokens last) : ∀ l ∈ tokens, l.token ≠ .endOfInput ∧
    ∃ front c after, before ++ ahead = front ++ c :: after ∧ l.start = byteLength front ∧
      l.line = 1 + front.count '\n' ∧ (l.token = .newline ↔ c = '\n') := by
  induction h with
  | stop => simp
  | @token before blanks cs rest c token tokens last hblanks hend hnewline _ ih =>
    refine List.forall_mem_cons.2 ⟨⟨hend, before ++ blanks, c, cs ++ rest, ?_, rfl, ?_, hnewline⟩,
      ?_⟩
    · rw [List.append_assoc, List.cons_append]
    · rw [count_newline_append_blanks before hblanks]
    · rwa [List.append_assoc, List.append_assoc] at ih

end

end LaidOut

/-! ## Spans -/

/-- The tokens of a text and the end of input, as spans of its bytes. -/
structure Spans (bytes : List UInt8) (tokens : List Lexeme) (last : Lexeme) : Prop where
  nonempty : ∀ l ∈ tokens, l.start < l.stop
  disjoint : tokens.Pairwise fun l l' => l.stop ≤ l'.start
  inside : ∀ l ∈ tokens, l.stop ≤ bytes.length
  /-- Any byte outside all tokens is a space or a tab. -/
  outside : ∀ (i : Nat) b, bytes[i]? = some b → (∀ l ∈ tokens, i < l.start ∨ l.stop ≤ i) →
    b = 32 ∨ b = 9
  ended : last.token = .endOfInput ∧ last.start = bytes.length ∧ last.stop = bytes.length
  notEnded : ∀ l ∈ tokens, l.token ≠ .endOfInput
  line : ∀ l ∈ tokens ++ [last], l.line = Text.lineAt bytes l.start

/-- Tokens that are laid out in a text are spans of its bytes. -/
theorem LaidOut.spans {text : List Char} {tokens : List Lexeme} {last : Lexeme}
    (h : LaidOut [] text tokens last) : Spans (Text.encode text) tokens last := by
  have hlength := Text.length_encode text
  refine ⟨fun l hl => (h.bounds l hl).2.1, h.pairwise, fun l hl => hlength ▸ (h.bounds l hl).2.2,
    fun i b hb houtside => ?_, ?_, fun l hl => (h.exists_first l hl).1, ?_⟩
  · refine h.blank_of_outside hb fun l hl => ?_
    rw [show byteLength [] + i = i from Nat.zero_add i]
    exact houtside l hl
  · rw [h.last_eq, hlength]
    exact ⟨rfl, rfl, rfl⟩
  · refine List.forall_mem_append.2 ⟨fun l hl => ?_, List.forall_mem_singleton.2 ?_⟩
    · obtain ⟨-, front, c, after, heq, hstart, hline, -⟩ := h.exists_first l hl
      obtain rfl : text = front ++ c :: after := heq
      rw [hstart, Text.lineAt_append, hline]
    · rw [h.last_eq]
      have hend := Text.lineAt_append text []
      rw [List.append_nil] at hend
      exact hend.symm

/-- The first byte of a token, read in `source` without its comments, stands on the same line of
`source`. It stands in the same column too, unless the token is the end of a line with a comment. -/
def Lexeme.FoundIn (source : String) (l : Lexeme) : Prop :=
  ∃ place line, (Text.bytes source)[place]? = (Text.bytes (Text.stripComments source))[l.start]? ∧
    Text.lineAt (Text.bytes source) place = l.line ∧
    (Text.splitLines source.toList)[l.line - 1]? = some line ∧
    (l.token ≠ .newline ∨ Text.Plain line → Text.columnAt (Text.bytes source) place =
      Text.columnAt (Text.bytes (Text.stripComments source)) l.start)

/-- Tokens that are laid out in a source without its comments are found in the source. -/
theorem LaidOut.foundIn {source : String} {tokens : List Lexeme} {last : Lexeme}
    (h : LaidOut [] (Text.stripComments source).toList tokens last) :
    ∀ l ∈ tokens, l.FoundIn source := by
  intro l hl
  obtain ⟨-, front, c, after, heq, hstart, hline, hnewline⟩ := h.exists_first l hl
  rw [List.nil_append] at heq
  obtain ⟨before, rest, line, hsource, hcount, hlookup, hcolumn⟩ := Text.exists_place_in_source heq
  refine ⟨byteLength before, line, ?_, ?_, ?_, fun hplain => ?_⟩
  · rw [Text.bytes_eq, Text.bytes_eq, hsource, hstart, heq, Text.getElem?_encode_cons,
      Text.getElem?_encode_cons]
  · rw [Text.bytes_eq, hsource, Text.lineAt_append, hline, hcount]
  · rw [hline, Nat.add_sub_cancel_left, hlookup]
  · rw [Text.bytes_eq, Text.bytes_eq, hstart]
    exact hcolumn (hplain.imp_left fun hne hc => hne (hnewline.2 hc))

/-- Tokens are faithful to the text: their spans cover the text without its comments up to blanks,
none twice and none empty, every line of that text is the same line of the source up to its first
comment, and the first bytes of tokens stand where they stand in the source. -/
theorem tokens_stand_in_source {source : String} {lexemes : List Lexeme}
    (h : tokenize source = .ok lexemes) :
    ∃ tokens last, lexemes = tokens ++ [last] ∧
    Spans (Text.bytes (Text.stripComments source)) tokens last ∧
      List.Forall₂ Text.IsBeforeComment (Text.splitLines (Text.stripComments source).toList)
        (Text.splitLines source.toList) ∧
      ∀ l ∈ tokens, l.FoundIn source := by
  have hreadings := tokenize_eq_ok_iff.1 h
  rw [Scanner.ofText_eq_between] at hreadings
  obtain ⟨tokens, last, rfl, hlaidOut⟩ := Scanner.laidOut_of_readings hreadings
  refine ⟨tokens, last, rfl, ?_, Text.lines_stripComments source, hlaidOut.foundIn⟩
  rw [Text.bytes_eq]
  exact hlaidOut.spans

/-- A comment sign inside a string literal, which goes on in the next line, and one behind it. -/
theorem tokens_stand_in_source_of_comments :
    ∃ lexemes, tokenize "s = \"é // x\n\" // y\nt" = .ok lexemes ∧
    lexemes.map Lexeme.start = [0, 2, 4, 11, 12, 13] ∧
    ∃ tokens last, lexemes = tokens ++ [last] ∧
      Spans (Text.bytes (Text.stripComments "s = \"é // x\n\" // y\nt")) tokens last ∧
      List.Forall₂ Text.IsBeforeComment
        (Text.splitLines (Text.stripComments "s = \"é // x\n\" // y\nt").toList)
        (Text.splitLines "s = \"é // x\n\" // y\nt".toList) ∧
      ∀ l ∈ tokens, l.FoundIn "s = \"é // x\n\" // y\nt" := by
  have h : tokenize "s = \"é // x\n\" // y\nt" = .ok [⟨.identifier "s", 1, 0, 1⟩,
        ⟨.mark .assign, 1, 2, 3⟩, ⟨.text "é \n", 1, 4, 10⟩, ⟨.newline, 2, 11, 12⟩,
        ⟨.identifier "t", 3, 12, 13⟩, ⟨.endOfInput, 3, 13, 13⟩] := by
    decide +kernel
  exact ⟨_, h, rfl, tokens_stand_in_source h⟩

/-- The longest front of a line without `//`. -/
def Text.IsLongestPlain (cut line : List Char) : Prop :=
  cut <+: line ∧ Plain cut ∧ ∀ front, front <+: line → Plain front → front.length ≤ cut.length

/-- Of a line `a//` only `a` is left, though `a/` holds no comment sign either, and the newline
behind it is two columns further in the source. -/
theorem comment_moves_line_end :
    tokenize "a//\n" = .ok [⟨.identifier "a", 1, 0, 1⟩, ⟨.newline, 1, 1, 2⟩,
      ⟨.endOfInput, 2, 2, 2⟩] ∧
    ¬ List.Forall₂ Text.IsLongestPlain (Text.splitLines (Text.stripComments "a//\n").toList)
      (Text.splitLines "a//\n".toList) ∧
    ¬ ∃ place : Nat, (Text.bytes "a//\n")[place]? = (Text.bytes (Text.stripComments "a//\n"))[1]? ∧
      Text.lineAt (Text.bytes "a//\n") place = 1 ∧
      Text.columnAt (Text.bytes "a//\n") place =
        Text.columnAt (Text.bytes (Text.stripComments "a//\n")) 1 := by
  have hstripped : Text.stripComments "a//\n" = "a\n" := by decide +kernel
  have hsource : Text.bytes "a//\n" = [97, 47, 47, 10] := by
    rw [Text.bytes_eq]
    rfl
  have hbytes : Text.bytes "a\n" = [97, 10] := by
    rw [Text.bytes_eq]
    rfl
  rw [hstripped, hsource, hbytes]
  refine ⟨by decide +kernel, fun h => ?_, ?_⟩
  · have hlines : Text.splitLines "a\n".toList = [['a'], []] ∧
        Text.splitLines "a//\n".toList = [['a', '/', '/'], []] := by decide
    rw [hlines.1, hlines.2, List.forall₂_cons] at h
    have := h.1.2.2 ['a', '/'] (by decide) (by decide)
    contradiction
  · rintro ⟨place, hbyte, hline, hcolumn⟩
    have hplace : place < 4 := by
      refine Nat.lt_of_not_le fun hle => ?_
      rw [List.getElem?_eq_none hle] at hbyte
      cases hbyte
    interval_cases place <;> revert hbyte hcolumn <;> decide

end FormScript
