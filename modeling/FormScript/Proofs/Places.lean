import Mathlib.Data.List.TakeWhile
import FormScript.Proofs.Scanning

/-!
# Places in a text

A text can be read by a scanner, which carries its place and its line from token to token, or with
`tokenAt`, which is told a byte position and finds the rest of the text and the line there anew.
`Scanner.between` is the scanner that stands between two parts of a text, with the bytes and lines
of the first part counted. Reading moves it to another place between two parts of the same text
(`Scanner.next_between`), and at such a place `tokenAt` reads what the scanner reads (`tokenAt_eq`).
So both read the same tokens and stop with the same one or with the same error
(`tokenAt_walks_as_scanner`).
-/

namespace FormScript

/-- The bytes of two parts add up. -/
theorem byteLength_append (cs cs' : List Char) :
    byteLength (cs ++ cs') = byteLength cs + byteLength cs' := by
  induction cs with
  | nil => exact (Nat.zero_add _).symm
  | cons c cs ih =>
    change c.utf8Size + byteLength (cs ++ cs') = c.utf8Size + byteLength cs + byteLength cs'
    rw [ih, Nat.add_assoc]

/-- The first part of a text is cut off at its number of bytes. -/
theorem afterBytes_append (before ahead : List Char) :
    afterBytes (byteLength before) (before ++ ahead) = some ahead := by
  induction before with
  | nil => rw [byteLength, List.foldr_nil, afterBytes, List.nil_append]
  | cons c before ih =>
    obtain ⟨k, hk⟩ := Nat.exists_eq_add_one.2 c.utf8Size_pos
    have hlength : byteLength (c :: before) = k + byteLength before + 1 := by
      change c.utf8Size + byteLength before = _
      omega
    have hrest : k + byteLength before + 1 - c.utf8Size = byteLength before := by omega
    rw [hlength, List.cons_append, afterBytes, if_pos (by omega), hrest, ih]

/-- The newlines of the first part of a text are those that start within its bytes. -/
theorem newlinesBefore_append (before ahead : List Char) :
    newlinesBefore (byteLength before) (before ++ ahead) = before.count '\n' := by
  induction before with
  | nil => rw [byteLength, List.foldr_nil, newlinesBefore, List.count_nil]
  | cons c before ih =>
    obtain ⟨k, hk⟩ := Nat.exists_eq_add_one.2 c.utf8Size_pos
    have hlength : byteLength (c :: before) = k + byteLength before + 1 := by
      change c.utf8Size + byteLength before = _
      omega
    have hrest : k + byteLength before + 1 - c.utf8Size = byteLength before := by omega
    rw [hlength, List.cons_append, newlinesBefore, hrest, ih, List.count_cons, Nat.add_comm]
    simp only [beq_iff_eq]

/-- Blanks hold no newline. -/
theorem count_newline_append_blanks (before : List Char) {blanks : List Char}
    (h : ∀ c ∈ blanks, isBlank c = true) : (before ++ blanks).count '\n' = before.count '\n' := by
  have hzero : blanks.count '\n' = 0 := by
    rw [List.count_eq_zero]
    intro hmem
    cases h '\n' hmem
  rw [List.count_append, hzero, Nat.add_zero]

/-- The line at which a reading stands. -/
def Reading.line : Reading → Nat
  | .ok lexeme => lexeme.line
  | .error e => e.line

namespace Scanner

/-- The scanner between two parts of a text. -/
def between (before ahead : List Char) : Scanner :=
  ⟨ahead, byteLength before, 1 + before.count '\n'⟩

/-- The scanner of a text stands in front of it. -/
theorem ofText_eq_between (text : String) : ofText text = between [] text.toList :=
  rfl

section
variable {before ahead blanks w rest : List Char}

/-- Passing characters moves the place in the text behind them. -/
theorem between_pass (length : Nat) : (between before ahead).pass length =
    between (before ++ ahead.take length) (ahead.drop length) := by
  simp only [pass, skip, between, byteLength_append, List.count_append, Nat.add_assoc]

/-- The place behind the blanks that follow. -/
theorem between_skipBlanks (hblanks : ∀ c ∈ blanks, isBlank c = true)
    (hrest : ∀ c ∈ rest.head?, isBlank c = false) :
    (between before (blanks ++ rest)).skipBlanks = between (before ++ blanks) rest := by
  have htake : rest.takeWhile isBlank = [] ∧ rest.dropWhile isBlank = rest := by
    cases rest with
    | nil => exact ⟨rfl, rfl⟩
    | cons c cs =>
      have hc : isBlank c = false := hrest c rfl
      simp [hc]
  simp only [skipBlanks, between, List.takeWhile_append_of_pos hblanks,
    List.dropWhile_append_of_pos hblanks, htake, List.append_nil, byteLength_append,
    count_newline_append_blanks before hblanks]

/-- Blanks come first, if there are any. -/
theorem exists_blanks (ahead : List Char) : ∃ blanks rest, ahead = blanks ++ rest ∧
    (∀ c ∈ blanks, isBlank c = true) ∧ ∀ c ∈ rest.head?, isBlank c = false := by
  refine ⟨ahead.takeWhile isBlank, ahead.dropWhile isBlank, List.takeWhile_append_dropWhile.symm,
    fun c => List.mem_takeWhile_imp, fun c hc => ?_⟩
  have hhead := List.head?_dropWhile_not isBlank ahead
  rw [Option.mem_def.1 hc] at hhead
  simpa using hhead

/-- At the end of a text the end of input is read. -/
theorem next_between_nil (hblanks : ∀ c ∈ blanks, isBlank c = true) :
    (between before blanks).next = (.ok (between (before ++ blanks) []).endLexeme,
      between (before ++ blanks) []) := by
  have hskip : (between before (blanks ++ [])).skipBlanks = between (before ++ blanks) [] :=
    between_skipBlanks hblanks (by simp)
  rw [List.append_nil] at hskip
  rw [next, step?_of_nil (by rw [hskip]; rfl), hskip]
  rfl

/-- Behind blanks a token is read. -/
theorem next_between_ok {c : Char} {cs : List Char} {token : Token} {length : Nat}
    (hblanks : ∀ c ∈ blanks, isBlank c = true) (hc : isBlank c = false)
    (h : munch c cs = (.ok token, length)) :
    (between before (blanks ++ c :: cs)).next =
      (.ok ⟨token, 1 + before.count '\n', byteLength (before ++ blanks),
          byteLength (before ++ blanks ++ (c :: cs).take length)⟩,
        between (before ++ blanks ++ (c :: cs).take length) ((c :: cs).drop length)) := by
  have hskip :
      (between before (blanks ++ c :: cs)).skipBlanks = between (before ++ blanks) (c :: cs) :=
    between_skipBlanks hblanks (by simpa using hc)
  rw [next, step?_of_munch_ok (by rw [hskip]; rfl) h, hskip, between_pass]
  simp only [between, count_newline_append_blanks before hblanks, Option.getD_some]

/-- Behind blanks there is no token to read. -/
theorem next_between_error {c : Char} {cs : List Char} {fault : LexFault} {length : Nat}
    (hblanks : ∀ c ∈ blanks, isBlank c = true) (hc : isBlank c = false)
    (h : munch c cs = (.error fault, length)) :
    (between before (blanks ++ c :: cs)).next =
      (.error ⟨1 + before.count '\n', fault⟩,
        between (before ++ blanks ++ (c :: cs).take length) ((c :: cs).drop length)) := by
  have hskip :
      (between before (blanks ++ c :: cs)).skipBlanks = between (before ++ blanks) (c :: cs) :=
    between_skipBlanks hblanks (by simpa using hc)
  rw [next, step?_of_munch_error (by rw [hskip]; rfl) h, hskip, between_pass]
  simp only [between, count_newline_append_blanks before hblanks, Option.getD_some]

/-- Reading moves a scanner on to another place of the text. The line of what it reads, and of where
a token starts, is that of the place it comes from. -/
theorem next_between (before ahead : List Char) : ∃ w rest, ahead = w ++ rest ∧
    (between before ahead).next.2 = between (before ++ w) rest ∧
    (between before ahead).next.1.line = 1 + before.count '\n' ∧
    ∀ lexeme, (between before ahead).next.1 = .ok lexeme → lexeme.stop = byteLength (before ++ w) ∧
      newlinesBefore lexeme.start (before ++ ahead) = before.count '\n' := by
  obtain ⟨blanks, rest, rfl, hblanks, hrest⟩ := exists_blanks ahead
  have hstart : newlinesBefore (byteLength (before ++ blanks)) (before ++ (blanks ++ rest)) =
      before.count '\n' := by
    rw [← List.append_assoc, newlinesBefore_append, count_newline_append_blanks before hblanks]
  cases rest with
  | nil =>
    refine ⟨blanks, [], rfl, ?_⟩
    rw [List.append_nil] at hstart ⊢
    rw [next_between_nil hblanks]
    refine ⟨rfl, ?_, ?_⟩
    · simp only [Reading.line, endLexeme, between, count_newline_append_blanks before hblanks]
    · rintro lexeme ⟨⟩
      exact ⟨rfl, hstart⟩
  | cons c cs =>
    have hc : isBlank c = false := hrest c rfl
    cases hfound : munch c cs with
    | mk found length =>
      refine ⟨blanks ++ (c :: cs).take length, (c :: cs).drop length, ?_, ?_⟩
      · rw [List.append_assoc, List.take_append_drop]
      rw [← List.append_assoc before blanks (List.take _ _)]
      cases found with
      | ok token =>
        rw [next_between_ok hblanks hc hfound]
        refine ⟨rfl, rfl, ?_⟩
        rintro lexeme ⟨⟩
        exact ⟨rfl, hstart⟩
      | error fault =>
        rw [next_between_error hblanks hc hfound]
        exact ⟨rfl, rfl, nofun⟩

end

end Scanner

/-! ## Reading at positions -/

/-- A scanner reads the same, further back, if more bytes stand before it. -/
theorem Scanner.next_behind (n offset line : Nat) (rest : List Char) :
    (Scanner.mk rest (n + offset) line).next.1 =
      (Scanner.mk rest offset line).next.1.map (.behind n) := by
  simp only [next, step?, skipBlanks]
  cases rest.dropWhile isBlank with
  | nil => simp only [Option.getD_none, endLexeme, Except.map, Lexeme.behind, Nat.add_assoc]
  | cons c cs =>
    cases hfound : munch c cs with
    | mk found length =>
      cases found with
      | ok token =>
        simp only [hfound, skip, Option.getD_some, Except.map, Lexeme.behind, Nat.add_assoc]
      | error fault => simp only [hfound, Option.getD_some, Except.map]

/-- At a place of a text, `tokenAt` reads what a scanner there reads. -/
theorem tokenAt_eq {text : String} {before ahead : List Char} (h : text.toList = before ++ ahead) :
    tokenAt text (byteLength before) = (Scanner.between before ahead).next.1 := by
  rw [tokenAt, h, newlinesBefore_append, afterBytes_append]
  exact (Scanner.next_behind (byteLength before) 0 _ ahead).symm

/-- Whether a reading is the last one: the end of input, or an error. -/
def Reading.isLast : Reading → Bool
  | .ok lexeme => lexeme.token = .endOfInput
  | .error _ => true

/-- The answers to a number of calls, each made in the state that the one before left, up to and
with the first one that is the last. -/
def readingsOf {σ : Type} (call : σ → Reading × σ) : (calls : Nat) → σ → List Reading
  | 0, _ => []
  | calls + 1, state =>
    (call state).1 :: if (call state).1.isLast then [] else readingsOf call calls (call state).2

/-- Reads the token at a position of a text, and goes on to the position behind it. -/
def readAt (text : String) (position : Nat) : Reading × Nat :=
  (tokenAt text position, ((tokenAt text position).map Lexeme.stop).toOption.getD position)

/-- A scanner stands at a byte position of a text. -/
def Scanner.StandsAt (text : String) (position : Nat) (s : Scanner) : Prop :=
  ∃ before ahead, text.toList = before ++ ahead ∧ position = byteLength before ∧
    s = between before ahead

/-- Two ways to read that answer alike, and stay alike unless the answer is the last one, give the
same readings. -/
theorem readingsOf_congr {σ τ : Type} {call : σ → Reading × σ} {call' : τ → Reading × τ}
    {R : σ → τ → Prop} (hcall : ∀ s t, R s t → (call s).1 = (call' t).1 ∧
      ((call s).1.isLast = false → R (call s).2 (call' t).2)) (calls : Nat) :
    ∀ s t, R s t → readingsOf call calls s = readingsOf call' calls t := by
  induction calls with
  | zero => exact fun _ _ _ => rfl
  | succ calls ih =>
    intro s t h
    obtain ⟨hreading, hnext⟩ := hcall s t h
    rw [readingsOf, readingsOf, ← hreading]
    split
    · rfl
    · rw [ih _ _ (hnext (Bool.eq_false_iff.2 ‹_›))]

/-- A reading that is not the last one shortens what follows. -/
theorem Scanner.length_rest_of_next {s : Scanner} (h : s.next.1.isLast = false) :
    s.next.2.rest.length < s.rest.length := by
  cases hstep : s.step? with
  | none =>
    rw [next, hstep] at h
    cases h
  | some found =>
    rw [next, hstep, Option.getD_some]
    exact length_rest_of_step? hstep

/-- More calls than there are characters reach the last reading. -/
theorem Scanner.readingsOf_next_ends (calls : Nat) (s : Scanner) (h : s.rest.length < calls) :
    ∃ before last, readingsOf next calls s = before ++ [last] ∧ last.isLast = true ∧
      ∀ reading ∈ before, reading.isLast = false := by
  induction calls generalizing s with
  | zero => exact absurd h (Nat.not_lt_zero _)
  | succ calls ih =>
    rw [readingsOf]
    cases hlast : s.next.1.isLast with
    | true => exact ⟨[], s.next.1, rfl, hlast, List.forall_mem_nil _⟩
    | false =>
      have hshorter := length_rest_of_next hlast
      obtain ⟨before, last, heq, hend, hbefore⟩ := ih s.next.2 (by omega)
      refine ⟨s.next.1 :: before, last, ?_, hend, List.forall_mem_cons.2 ⟨hlast, hbefore⟩⟩
      rw [if_neg Bool.false_ne_true, heq, List.cons_append]

/-- At a position of a text and with a scanner there the same is read, and behind a token both go on
to the same place. -/
theorem Scanner.StandsAt.readAt_eq {text : String} {position : Nat} {s : Scanner}
    (h : s.StandsAt text position) :
    (readAt text position).1 = s.next.1 ∧
      ((readAt text position).1.isLast = false →
        s.next.2.StandsAt text (readAt text position).2) := by
  obtain ⟨before, ahead, htext, rfl, rfl⟩ := h
  have hreading := tokenAt_eq htext
  refine ⟨hreading, fun hlast => ?_⟩
  obtain ⟨w, rest, rfl, hafter, -, hstop⟩ := next_between before ahead
  refine ⟨before ++ w, rest, by rw [htext, List.append_assoc], ?_, hafter⟩
  cases hfound : tokenAt text (byteLength before) with
  | error e =>
    rw [readAt, hfound] at hlast
    cases hlast
  | ok lexeme =>
    rw [readAt, hfound, ← (hstop lexeme (hreading ▸ hfound)).1]
    rfl

/-- A text that is read position by position, each token at the place where the one before stops,
gives the same tokens, lines, places and errors as a scanner does, up to and with the end of input
or the first error, and that is reached. -/
theorem tokenAt_walks_as_scanner (text : String) :
    (∀ calls, readingsOf (readAt text) calls 0 = readingsOf Scanner.next calls (.ofText text)) ∧
    ∀ calls, text.length < calls → ∃ before last,
      readingsOf (readAt text) calls 0 = before ++ [last] ∧ last.isLast = true ∧
      ∀ reading ∈ before, reading.isLast = false := by
  have hstart : (Scanner.ofText text).StandsAt text 0 := ⟨[], text.toList, rfl, rfl, rfl⟩
  have hwalk : ∀ calls, readingsOf (readAt text) calls 0 =
      readingsOf Scanner.next calls (.ofText text) :=
    fun calls => readingsOf_congr (R := Scanner.StandsAt text) (fun _ _ h => h.readAt_eq)
      calls 0 _ hstart
  refine ⟨hwalk, fun calls hcalls => ?_⟩
  rw [hwalk]
  refine Scanner.readingsOf_next_ends calls _ ?_
  rwa [Scanner.ofText, String.length_toList]

end FormScript
