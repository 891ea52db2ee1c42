import FormScript.TokenStream

/-!
# Steps of a token stream

What the primitives of `Parse` do, as relations between the stream before and the stream after:
`TokenStream.Takes` for one consumed token and `TokenStream.Skips` for a run of line ends. A stream
is `Ended` when the end of input stands behind all other readings, which every stream over a text is
and every step keeps.

The lemmas come in two families. Those whose names end in `_ok` take a successful run apart, one
primitive at a time. Those about `Parse.Yields` put a run together: `Yields (p s) fits a s'` says
that `p` at `s` gives `a` and leaves `s'` where the nesting `fits` the levels that are left, and
fails for too deep nesting where it does not, so one statement covers both outcomes of a text that
the grammar admits.
-/

namespace FormScript

namespace TokenStream

/-- Everything that a stream will still offer, the lookahead first. -/
def pending (s : TokenStream) : List Reading :=
  .ok s.current :: s.ahead

/-- The stream with one more construct open. -/
def deeper (s : TokenStream) : TokenStream :=
  { s with depth := s.depth + 1 }

/-- The stream with one construct closed. -/
def shallower (s : TokenStream) : TokenStream :=
  { s with depth := s.depth - 1 }

/-- The stream behind the creation of a node. -/
def numbered (s : TokenStream) : TokenStream :=
  { s with nextId := s.nextId + 1 }

/-- The origin of the next node, if it starts at the given line. -/
def originAt (s : TokenStream) (line : Nat) : Origin :=
  ⟨s.nextId, line⟩

@[simp] theorem pending_deeper (s : TokenStream) : s.deeper.pending = s.pending := rfl
@[simp] theorem pending_shallower (s : TokenStream) : s.shallower.pending = s.pending := rfl
@[simp] theorem pending_numbered (s : TokenStream) : s.numbered.pending = s.pending := rfl
@[simp] theorem current_deeper (s : TokenStream) : s.deeper.current = s.current := rfl
@[simp] theorem current_shallower (s : TokenStream) : s.shallower.current = s.current := rfl
@[simp] theorem current_numbered (s : TokenStream) : s.numbered.current = s.current := rfl
@[simp] theorem ahead_deeper (s : TokenStream) : s.deeper.ahead = s.ahead := rfl
@[simp] theorem ahead_shallower (s : TokenStream) : s.shallower.ahead = s.ahead := rfl
@[simp] theorem ahead_numbered (s : TokenStream) : s.numbered.ahead = s.ahead := rfl
@[simp] theorem depth_deeper (s : TokenStream) : s.deeper.depth = s.depth + 1 := rfl
@[simp] theorem depth_shallower (s : TokenStream) : s.shallower.depth = s.depth - 1 := rfl
@[simp] theorem depth_numbered (s : TokenStream) : s.numbered.depth = s.depth := rfl

/-- The last reading is the end of input. -/
def Ended (s : TokenStream) : Prop :=
  ∃ before last, s.pending = before ++ [.ok last] ∧ last.token = .endOfInput

/-- The lookahead is the given token, and behind it stands the stream `s'`. -/
def Takes (s : TokenStream) (token : Token) (s' : TokenStream) : Prop :=
  s.current.token = token ∧
    ∃ lexeme ahead, s.ahead = .ok lexeme :: ahead ∧ s' = { s with current := lexeme, ahead }

/-- Behind the line ends in front of `s` stands the stream `s'`. -/
inductive Skips : TokenStream → TokenStream → Prop where
  | done {s : TokenStream} (other : s.current.token ≠ .newline) : Skips s s
  | more {s s₁ s' : TokenStream} (newline : s.Takes .newline s₁) (rest : Skips s₁ s') : Skips s s'

section
variable {s s' : TokenStream} {token : Token}

@[simp] theorem ended_deeper : s.deeper.Ended ↔ s.Ended := Iff.rfl
@[simp] theorem ended_shallower : s.shallower.Ended ↔ s.Ended := Iff.rfl
@[simp] theorem ended_numbered : s.numbered.Ended ↔ s.Ended := Iff.rfl

/-- A stream whose lookahead is another token has readings behind it. -/
theorem Ended.ahead_ne_nil (hs : s.Ended) (h : s.current.token ≠ .endOfInput) : s.ahead ≠ [] := by
  obtain ⟨before, last, heq, hlast⟩ := hs
  intro hnil
  rw [pending, hnil] at heq
  cases before with
  | nil =>
    obtain ⟨rfl⟩ : s.current = last := by simpa using heq
    exact h hlast
  | cons r before => simp at heq

/-- The token that was taken stands in front of the readings that are left. -/
theorem Takes.pending_eq (h : s.Takes token s') : s.pending = .ok s.current :: s'.pending := by
  obtain ⟨-, lexeme, ahead, hahead, rfl⟩ := h
  rw [pending, hahead]
  rfl

/-- Taking a token keeps the level. -/
theorem Takes.depth_eq (h : s.Takes token s') : s'.depth = s.depth := by
  obtain ⟨-, lexeme, ahead, -, rfl⟩ := h
  rfl

/-- Taking a token shortens what lies ahead. -/
theorem Takes.ahead_lt (h : s.Takes token s') : s'.ahead.length < s.ahead.length := by
  obtain ⟨-, lexeme, ahead, hahead, rfl⟩ := h
  simp [hahead]

/-- A stream from which a token is taken still comes to the end of input. -/
theorem Takes.ended (h : s.Takes token s') (hs : s.Ended) : s'.Ended := by
  obtain ⟨before, last, heq, hlast⟩ := hs
  rw [h.pending_eq] at heq
  cases before with
  | nil => simp [pending] at heq
  | cons r before =>
    rw [List.cons_append, List.cons.injEq] at heq
    exact ⟨before, last, heq.2, hlast⟩

/-- Skipping line ends keeps the level. -/
theorem Skips.depth_eq (h : s.Skips s') : s'.depth = s.depth := by
  induction h with
  | done => rfl
  | more h _ ih => rw [ih, h.depth_eq]

/-- Skipping line ends does not lengthen what lies ahead. -/
theorem Skips.ahead_le (h : s.Skips s') : s'.ahead.length ≤ s.ahead.length := by
  induction h with
  | done => exact Nat.le_refl _
  | more h _ ih => exact Nat.le_trans ih (Nat.le_of_lt h.ahead_lt)

/-- A stream whose line ends are skipped still comes to the end of input. -/
theorem Skips.ended (h : s.Skips s') (hs : s.Ended) : s'.Ended := by
  induction h with
  | done => exact hs
  | more h _ ih => exact ih (h.ended hs)

end

/-! ## The words of a stream -/

/-- A number of line ends. -/
abbrev lineEnds (k : Nat) : List Token :=
  List.replicate k .newline

/-- The tokens `w` stand between `s` and `s'`. -/
def Spans (s : TokenStream) (w : List Token) (s' : TokenStream) : Prop :=
  ∃ lexemes : List Lexeme, s.pending = lexemes.map .ok ++ s'.pending ∧ lexemes.map Lexeme.token = w

/-- A stream offers the tokens `w` and then the end of input. -/
def Spells (s : TokenStream) (w : List Token) : Prop :=
  ∃ lexemes : List Lexeme, s.pending = lexemes.map .ok ∧
    lexemes.map Lexeme.token = w ++ [.endOfInput]

section
variable {s s₁ s' : TokenStream} {token : Token} {w w' : List Token}

@[simp] theorem deeper_spans : s.deeper.Spans w s' ↔ s.Spans w s' := Iff.rfl
@[simp] theorem numbered_spans : s.numbered.Spans w s' ↔ s.Spans w s' := Iff.rfl
@[simp] theorem spans_shallower : s.Spans w s'.shallower ↔ s.Spans w s' := Iff.rfl
@[simp] theorem spans_numbered : s.Spans w s'.numbered ↔ s.Spans w s' := Iff.rfl

/-- No tokens stand between a stream and itself. -/
theorem Spans.refl (s : TokenStream) : s.Spans [] s :=
  ⟨[], rfl, rfl⟩

/-- The tokens of two ways stand one behind the other. -/
theorem Spans.trans (h : s.Spans w s₁) (h' : s₁.Spans w' s') : s.Spans (w ++ w') s' := by
  obtain ⟨ls, hls, rfl⟩ := h
  obtain ⟨ls', hls', rfl⟩ := h'
  exact ⟨ls ++ ls', by rw [hls, hls', List.map_append, List.append_assoc], List.map_append⟩

/-- The first of the tokens ahead is the lookahead. -/
theorem Spans.current_eq (h : s.Spans (token :: w) s') : s.current.token = token := by
  obtain ⟨lexemes, hp, hw⟩ := h
  cases lexemes with
  | nil => simp at hw
  | cons l ls =>
    obtain ⟨rfl⟩ : s.current = l := by simpa using (List.cons.inj hp).1
    exact (List.cons.inj hw).1

/-- A token that is taken stands between the streams. -/
theorem Takes.spans (h : s.Takes token s') : s.Spans [token] s' :=
  ⟨[s.current], h.pending_eq, by rw [← h.1]; rfl⟩

/-- What is skipped are line ends. -/
theorem Skips.spans (h : s.Skips s') : ∃ k, s.Spans (lineEnds k) s' := by
  induction h with
  | done => exact ⟨0, .refl _⟩
  | more newline _ ih =>
    obtain ⟨k, hk⟩ := ih
    exact ⟨k + 1, newline.spans.trans hk⟩

/-- What a stream offers does not depend on levels and numbers. -/
theorem Spells.of_pending_eq (h : s.Spells w) (hp : s'.pending = s.pending) : s'.Spells w := by
  rwa [Spells, hp]

/-- The lookahead is the first token. -/
theorem Spells.current_eq (h : s.Spells w) : s.current.token = w.headD .endOfInput := by
  obtain ⟨lexemes, hp, hw⟩ := h
  cases lexemes with
  | nil => simp at hw
  | cons l ls =>
    obtain ⟨rfl⟩ : s.current = l := by simpa using (List.cons.inj hp).1
    cases w with
    | nil => simpa using (List.cons.inj hw).1
    | cons token w => exact (List.cons.inj hw).1

/-- The first token can be taken. -/
theorem Spells.takes (h : s.Spells (token :: w)) : ∃ s', s.Takes token s' ∧ s'.Spells w := by
  obtain ⟨lexemes, hp, hw⟩ := h
  cases lexemes with
  | nil => simp at hw
  | cons l ls =>
    obtain ⟨rfl⟩ : s.current = l := by simpa using (List.cons.inj hp).1
    cases ls with
    | nil => simp at hw
    | cons l' ls =>
      have hahead : s.ahead = .ok l' :: ls.map .ok := (List.cons.inj hp).2
      refine ⟨{ s with current := l', ahead := ls.map .ok }, ⟨(List.cons.inj hw).1, l', _, hahead,
        rfl⟩, l' :: ls, rfl, (List.cons.inj hw).2⟩

/-- Line ends in front of another token can be skipped. -/
theorem Spells.skips {k : Nat} (h : s.Spells (lineEnds k ++ w))
    (hw : w.headD .endOfInput ≠ .newline) : ∃ s', s.Skips s' ∧ s'.Spells w := by
  induction k generalizing s with
  | zero => exact ⟨s, .done (h.current_eq ▸ hw), h⟩
  | succ k ih =>
    obtain ⟨s₁, newline, h₁⟩ := Spells.takes (w := lineEnds k ++ w) h
    obtain ⟨s', skip, h'⟩ := ih h₁
    exact ⟨s', .more newline skip, h'⟩

end

end TokenStream

namespace Parse

section
variable {α β : Type} {p : Parse α} {f : α → Parse β} {s s₁ s' : TokenStream} {a : α} {b : β}

/-- A parser that succeeds is followed by the rest. -/
theorem bind_of_ok (h : p s = .ok a s₁) : (p >>= f) s = f a s₁ := by
  show EStateM.bind p f s = _
  simp only [EStateM.bind, h]

/-- A parser that fails is followed by nothing. -/
theorem bind_of_error {e : ParseError} (h : p s = .error e s₁) : (p >>= f) s = .error e s₁ := by
  show EStateM.bind p f s = _
  simp only [EStateM.bind, h]

/-- A sequence succeeds through a success of its first part. -/
theorem bind_ok (h : (p >>= f) s = .ok b s') :
    ∃ a s₁, p s = .ok a s₁ ∧ f a s₁ = .ok b s' := by
  cases hp : p s with
  | ok a s₁ => exact ⟨a, s₁, rfl, by rwa [bind_of_ok hp] at h⟩
  | error e s₁ => rw [bind_of_error hp] at h; cases h

@[simp] theorem pure_run : (pure a : Parse α) s = .ok a s := rfl

@[simp] theorem peek_bind {f : Lexeme → Parse β} : (peek >>= f) s = f s.current s := rfl

@[simp] theorem descend_bind {f : Unit → Parse β} : (descend >>= f) s = f () s.deeper := rfl

@[simp] theorem leave_bind {f : Unit → Parse β} : (leave 1 >>= f) s = f () s.shallower := rfl

@[simp] theorem fresh_bind {line : Nat} {f : Origin → Parse β} :
    (fresh line >>= f) s = f (s.originAt line) s.numbered := rfl

@[simp] theorem pure_bind_run {f : α → Parse β} : ((pure a : Parse α) >>= f) s = f a s := rfl

@[simp] theorem check_bind {token : Token} {f : Bool → Parse β} :
    (check token >>= f) s = f (decide (s.current.token = token)) s := rfl

@[simp] theorem levelsLeft_bind {f : Nat → Parse β} :
    (levelsLeft >>= f) s = f (maxDepth - s.depth) s := rfl

/-- No success comes out of a fault of grammar. -/
theorem fail_ne_ok {line : Nat} {fault : SyntaxFault} :
    (fail line fault : Parse α) s ≠ .ok a s' := by
  intro h
  cases h

/-- A token that is not expected is no success. -/
theorem unexpected_ne_ok {expected construct : String} :
    (unexpected expected construct : Parse α) s ≠ .ok a s' := by
  intro h
  cases h

/-- Too deep nesting is no success. -/
theorem tooDeep_ne_ok {construct : String} : (tooDeep construct : Parse α) s ≠ .ok a s' := by
  intro h
  cases h

end

/-! ## Taking a successful run apart -/

section
variable {α β : Type} {s s' : TokenStream} {token : Token} {construct : String} {b : β}

/-- What stands ahead of a token that is consumed. The end of input is followed by itself. -/
theorem advance_cases {l : Lexeme} (h : advance s = .ok l s') :
    l = s.current ∧ (s.ahead = [] ∧ s' = s ∨
      ∃ lexeme ahead, s.ahead = .ok lexeme :: ahead ∧
        s' = { s with current := lexeme, ahead }) := by
  unfold advance at h
  split at h
  next hahead =>
    cases h
    exact ⟨rfl, .inl ⟨hahead, rfl⟩⟩
  next lexeme ahead hahead =>
    cases h
    exact ⟨rfl, .inr ⟨lexeme, ahead, hahead, rfl⟩⟩
  next => cases h

/-- A reading that is no token is gone, and the lookahead stays. -/
theorem advance_error {e : ParseError} (h : advance s = .error e s') :
    ∃ fault ahead, s.ahead = .error fault :: ahead ∧ e = .lexical fault ∧
    s' = { s with ahead } := by
  unfold advance at h
  split at h
  next => cases h
  next => cases h
  next fault ahead hahead =>
    cases h
    exact ⟨fault, ahead, hahead, rfl, rfl⟩

/-- A successful step behind another token than the end of input takes that token. -/
theorem advance_ok {l : Lexeme} (hs : s.Ended) (ht : s.current.token ≠ .endOfInput)
    (h : advance s = .ok l s') : l = s.current ∧ s.Takes s.current.token s' := by
  obtain ⟨rfl, ⟨hahead, -⟩ | ⟨lexeme, ahead, hahead, rfl⟩⟩ := advance_cases h
  · exact absurd hahead (hs.ahead_ne_nil ht)
  · exact ⟨rfl, rfl, lexeme, ahead, hahead, rfl⟩

/-- A parser that takes the lookahead and succeeds has gone on behind it. -/
theorem advance_bind_ok {f : Lexeme → Parse β} (hs : s.Ended) (ht : s.current.token = token)
    (hne : token ≠ .endOfInput) (h : (advance >>= f) s = .ok b s') :
    ∃ s₁, s.Takes token s₁ ∧ s₁.Ended ∧ f s.current s₁ = .ok b s' := by
  obtain ⟨l, s₁, h₁, h⟩ := bind_ok h
  obtain ⟨rfl, take⟩ := advance_ok hs (ht ▸ hne) h₁
  exact ⟨s₁, ht ▸ take, take.ended hs, h⟩

/-- A token that was demanded has been taken. -/
theorem expect_ok {l : Lexeme} (hs : s.Ended) (hne : token ≠ .endOfInput)
    (h : expect token construct s = .ok l s') : s.Takes token s' := by
  rw [expect, check_bind] at h
  split at h
  · next ht =>
    have ht := of_decide_eq_true ht
    exact ht ▸ (advance_ok hs (ht ▸ hne) h).2
  · exact absurd h unexpected_ne_ok

/-- A parser that demands a token and succeeds has gone on behind it. -/
theorem expect_bind_ok {f : Lexeme → Parse β} (hs : s.Ended) (hne : token ≠ .endOfInput)
    (h : (expect token construct >>= f) s = .ok b s') :
    ∃ l s₁, s.Takes token s₁ ∧ s₁.Ended ∧ f l s₁ = .ok b s' := by
  obtain ⟨l, s₁, h₁, h⟩ := bind_ok h
  have take := expect_ok hs hne h₁
  exact ⟨l, s₁, take, take.ended hs, h⟩

/-- A parser that demands a mark and succeeds has gone on behind it. -/
theorem expectMark_bind_ok {mark : Mark} {f : Unit → Parse β} (hs : s.Ended)
    (h : (expectMark mark construct >>= f) s = .ok b s') :
    ∃ s₁, s.Takes (.mark mark) s₁ ∧ s₁.Ended ∧ f () s₁ = .ok b s' := by
  obtain ⟨u, s₁, h₁, h⟩ := bind_ok h
  obtain ⟨l, s₂, take, hs₂, heq⟩ := expect_bind_ok hs (by simp) h₁
  cases heq
  exact ⟨s₁, take, hs₂, h⟩

/-- A parser that demands a line end and succeeds has gone on behind it. -/
theorem expectNewline_bind_ok {f : Unit → Parse β} (hs : s.Ended)
    (h : (expectNewline construct >>= f) s = .ok b s') :
    ∃ s₁, s.Takes .newline s₁ ∧ s₁.Ended ∧ f () s₁ = .ok b s' := by
  obtain ⟨u, s₁, h₁, h⟩ := bind_ok h
  obtain ⟨l, s₂, take, hs₂, heq⟩ := expect_bind_ok hs (by simp) h₁
  cases heq
  exact ⟨s₁, take, hs₂, h⟩

/-- A parser that demands a keyword and succeeds has gone on behind it. -/
theorem expectKeyword_bind_ok {keyword : Keyword} {f : Unit → Parse β} (hs : s.Ended)
    (h : (expectKeyword keyword construct >>= f) s = .ok b s') :
    ∃ s₁, s.Takes (.keyword keyword) s₁ ∧ s₁.Ended ∧ f () s₁ = .ok b s' := by
  obtain ⟨u, s₁, h₁, h⟩ := bind_ok h
  obtain ⟨l, s₂, take, hs₂, heq⟩ := expect_bind_ok hs (by simp) h₁
  cases heq
  exact ⟨s₁, take, hs₂, h⟩

/-- A parser that demands a name and succeeds has gone on behind it. -/
theorem expectIdentifier_bind_ok {f : String → Parse β} (hs : s.Ended)
    (h : (expectIdentifier construct >>= f) s = .ok b s') :
    ∃ name s₁, s.Takes (.identifier name) s₁ ∧ s₁.Ended ∧ f name s₁ = .ok b s' := by
  obtain ⟨name, s₁, h₁, h⟩ := bind_ok h
  rw [expectIdentifier, peek_bind] at h₁
  cases ht : s.current.token with
  | identifier name' =>
    rw [ht] at h₁
    obtain ⟨s₂, take, hs₂, heq⟩ := advance_bind_ok hs ht (by simp) h₁
    cases heq
    exact ⟨name, s₁, take, hs₂, h⟩
  | _ =>
    rw [ht] at h₁
    exact absurd h₁ unexpected_ne_ok

/-- A look for a token takes it, or finds another one and takes nothing. -/
theorem eat_bind_ok {f : Bool → Parse β} (hs : s.Ended) (hne : token ≠ .endOfInput)
    (h : (eat token >>= f) s = .ok b s') :
    (∃ s₁, s.Takes token s₁ ∧ s₁.Ended ∧ f true s₁ = .ok b s') ∨
      (s.current.token ≠ token ∧ f false s = .ok b s') := by
  obtain ⟨eaten, s₁, h₁, h⟩ := bind_ok h
  rw [eat, check_bind] at h₁
  split at h₁
  · next ht =>
    obtain ⟨s₂, take, hs₂, heq⟩ := advance_bind_ok hs (of_decide_eq_true ht) hne h₁
    cases heq
    exact .inl ⟨s₁, take, hs₂, h⟩
  · next ht =>
    cases h₁
    exact .inr ⟨fun heq => ht (decide_eq_true heq), h⟩

/-- A loop over line ends that succeeds has skipped them. -/
theorem skipNewlinesFrom_ok {u : Unit} {current : Lexeme} {ahead : List Reading}
    (hs : TokenStream.Ended { s with current, ahead })
    (h : skipNewlinesFrom s current ahead = .ok u s') :
    TokenStream.Skips { s with current, ahead } s' := by
  induction ahead generalizing current with
  | nil =>
    cases h
    by_cases hc : current.token = .endOfInput
    · exact .done (by simp [hc])
    · exact absurd rfl (hs.ahead_ne_nil hc)
  | cons reading ahead ih =>
    unfold skipNewlinesFrom at h
    split at h
    · next hnewline =>
      cases reading with
      | ok lexeme =>
        have take : TokenStream.Takes { s with current, ahead := .ok lexeme :: ahead } .newline
            { s with current := lexeme, ahead } := ⟨hnewline, lexeme, ahead, rfl, rfl⟩
        exact .more take (ih (take.ended hs) h)
      | error e => cases h
    · next hother =>
      cases h
      exact .done hother

/-- A parser that skips line ends and succeeds has gone on behind them. -/
theorem skipNewlines_bind_ok {f : Unit → Parse β} (hs : s.Ended)
    (h : (skipNewlines >>= f) s = .ok b s') :
    ∃ s₁, s.Skips s₁ ∧ s₁.Ended ∧ f () s₁ = .ok b s' := by
  obtain ⟨u, s₁, h₁, h⟩ := bind_ok h
  have skip := skipNewlinesFrom_ok hs h₁
  exact ⟨s₁, skip, skip.ended hs, h⟩

end

/-! ## Putting a run together -/

/-- A failure for too deep nesting. -/
def TooDeep {α : Type} (result : EStateM.Result ParseError TokenStream α) : Prop :=
  ∃ line construct s', result = .error (.grammar ⟨line, .nestingTooDeep construct maxDepth⟩) s'

/-- A run that gives `a` and leaves `s'` where the nesting `fits`, and fails for too deep nesting
where it does not. -/
def Yields {α : Type} (result : EStateM.Result ParseError TokenStream α) (fits : Prop) (a : α)
    (s' : TokenStream) : Prop :=
  (fits → result = .ok a s') ∧ (¬ fits → TooDeep result)

section
variable {α β : Type} {result : EStateM.Result ParseError TokenStream α} {p : Parse α}
  {f : α → Parse β} {s s₁ s' : TokenStream} {a : α} {b : β} {fits fits' : Prop}

/-- A failure for too deep nesting is what is expected where the nesting does not fit. -/
theorem Yields.tooDeep {construct : String} (h : ¬ fits) :
    Yields ((tooDeep construct : Parse α) s) fits a s' :=
  ⟨fun hf => absurd hf h, fun _ => ⟨s.current.line, construct, s, rfl⟩⟩

/-- A success is what is expected where the nesting fits. -/
theorem Yields.of_ok (h : result = .ok a s') (hfits : fits) : Yields result fits a s' :=
  ⟨fun _ => h, fun hf => absurd hfits hf⟩

/-- What is expected depends on whether the nesting fits, and not on how this is said. -/
theorem Yields.congr (h : Yields result fits a s') (hiff : fits ↔ fits') :
    Yields result fits' a s' :=
  ⟨fun hf => h.1 (hiff.2 hf), fun hf => h.2 (mt hiff.1 hf)⟩

/-- Two parts fit together if both fit: the failure of either one is the failure of the whole. -/
theorem Yields.bind (h : Yields (p s) fits a s₁) (hf : Yields (f a s₁) fits' b s') :
    Yields ((p >>= f) s) (fits ∧ fits') b s' := by
  by_cases hfits : fits
  · rw [bind_of_ok (h.1 hfits)]
    exact hf.congr ⟨fun h' => ⟨hfits, h'⟩, fun h' => h'.2⟩
  · obtain ⟨line, construct, s₂, hp⟩ := h.2 hfits
    rw [bind_of_error hp]
    exact ⟨fun h' => absurd h'.1 hfits, fun _ => ⟨line, construct, s₂, rfl⟩⟩

/-- What follows a part succeeds in any case. -/
theorem Yields.followed (h : Yields (p s) fits a s₁) (hf : f a s₁ = .ok b s') :
    Yields ((p >>= f) s) fits b s' :=
  (h.bind (.of_ok hf trivial)).congr (and_iff_left trivial)

end

section
variable {s s' : TokenStream} {token : Token} {construct : String}

/-- A token that is there is taken. -/
theorem advance_of_takes (h : s.Takes token s') : advance s = .ok s.current s' := by
  obtain ⟨-, lexeme, ahead, hahead, rfl⟩ := h
  simp only [advance, hahead]

/-- A token that is there can be demanded. -/
theorem expect_of_takes (h : s.Takes token s') : expect token construct s = .ok s.current s' := by
  rw [expect, check_bind, if_pos (decide_eq_true h.1)]
  exact advance_of_takes h

/-- A mark that is there can be demanded. -/
theorem expectMark_of_takes {mark : Mark} (h : s.Takes (.mark mark) s') :
    expectMark mark construct s = .ok () s' := by
  rw [expectMark, bind_of_ok (expect_of_takes h)]
  rfl

/-- A line end that is there can be demanded. -/
theorem expectNewline_of_takes (h : s.Takes .newline s') :
    expectNewline construct s = .ok () s' := by
  rw [expectNewline, bind_of_ok (expect_of_takes h)]
  rfl

/-- A keyword that is there can be demanded. -/
theorem expectKeyword_of_takes {keyword : Keyword} (h : s.Takes (.keyword keyword) s') :
    expectKeyword keyword construct s = .ok () s' := by
  rw [expectKeyword, bind_of_ok (expect_of_takes h)]
  rfl

/-- A name that is there can be demanded. -/
theorem expectIdentifier_of_takes {name : String} (h : s.Takes (.identifier name) s') :
    expectIdentifier construct s = .ok name s' := by
  rw [expectIdentifier, peek_bind, h.1]
  simp only [bind_of_ok (advance_of_takes h), pure_run]

/-- An optional token that is there is taken. -/
theorem eat_of_takes (h : s.Takes token s') : eat token s = .ok true s' := by
  rw [eat, check_bind, if_pos (decide_eq_true h.1), bind_of_ok (advance_of_takes h)]
  rfl

/-- An optional token that is not there is not taken. -/
theorem eat_of_ne (h : s.current.token ≠ token) : eat token s = .ok false s := by
  rw [eat, check_bind, if_neg (by simpa using h)]
  rfl

/-- The readings that a stream had before do not matter to where its line ends lead. -/
theorem skipNewlinesFrom_update (s : TokenStream) (before current : Lexeme)
    (behind ahead : List Reading) :
    skipNewlinesFrom { s with current := before, ahead := behind } current ahead =
      skipNewlinesFrom s current ahead := by
  induction ahead generalizing current with
  | nil => rfl
  | cons reading ahead ih =>
    unfold skipNewlinesFrom
    cases reading with
    | ok lexeme => simp only [ih]
    | error e => rfl

/-- Line ends that are there are skipped. -/
theorem skipNewlines_of_skips (h : s.Skips s') : skipNewlines s = .ok () s' := by
  induction h with
  | @done s other =>
    obtain ⟨current, ahead, nextId, depth⟩ := s
    cases ahead with
    | nil => rfl
    | cons reading ahead => exact if_neg other
  | @more s s₁ s' newline _ ih =>
    obtain ⟨hnewline, lexeme, ahead, hahead, rfl⟩ := newline
    rw [← ih, skipNewlines, hahead]
    exact (if_pos hnewline).trans (skipNewlinesFrom_update s lexeme lexeme ahead ahead).symm

end

/-! ## Loops

A loop is bounded by the readings ahead of it. What its items say of a run is said once for each of
the two loops: a relation that holds at the end of the items and is kept by one more item holds of
the whole loop, and a bound as long as the readings ahead is never used up, because every item takes
a token.
-/

section
variable {α : Type} {construct : String} {item? : Parse (Option α)} {along : List Reading}
  {s s₁ s' : TokenStream} {a : α} {as : List α} {fits fits' : Prop}

/-- What holds behind the last item, and is kept by an item in front, holds of a successful loop. -/
theorem manyAlong_ok {R : TokenStream → List α → TokenStream → Prop}
    (hnone : ∀ {s s'}, s.Ended → item? s = .ok none s' → s'.Ended ∧ R s [] s')
    (hsome : ∀ {s a s₁}, s.Ended → item? s = .ok (some a) s₁ →
      s₁.Ended ∧ ∀ {as s'}, R s₁ as s' → R s (a :: as) s')
    (hs : s.Ended) (h : manyAlong construct item? along s = .ok as s') : s'.Ended ∧ R s as s' := by
  induction along generalizing s as s' with
  | nil =>
    rw [manyAlong] at h
    obtain ⟨found, s₁, h₁, h⟩ := bind_ok h
    cases found with
    | none =>
      cases h
      exact hnone hs h₁
    | some a => exact absurd h fail_ne_ok
  | cons reading along ih =>
    rw [manyAlong] at h
    obtain ⟨found, s₁, h₁, h⟩ := bind_ok h
    cases found with
    | none =>
      cases h
      exact hnone hs h₁
    | some a =>
      obtain ⟨hs₁, hkeep⟩ := hsome hs h₁
      obtain ⟨rest, s₂, h₂, h⟩ := bind_ok h
      obtain ⟨hs₂, hrest⟩ := ih hs₁ h₂
      cases h
      exact ⟨hs₂, hkeep hrest⟩

/-- A loop is over where there is no item. -/
theorem manyAlong_of_none (h : item? s = .ok none s') :
    manyAlong construct item? along s = .ok [] s' := by
  rw [manyAlong.eq_def, bind_of_ok h]
  rfl

/-- An item that takes a token comes before the rest of the loop. -/
theorem Yields.manyAlong (h : Yields (item? s) fits (some a) s₁)
    (hlt : s₁.ahead.length < s.ahead.length) (hle : s.ahead.length ≤ along.length)
    (hrest : ∀ along, s₁.ahead.length ≤ along.length →
      Yields (manyAlong construct item? along s₁) fits' as s') :
    Yields (manyAlong construct item? along s) (fits ∧ fits') (a :: as) s' := by
  cases along with
  | nil => exact absurd (Nat.lt_of_lt_of_le hlt hle) (Nat.not_lt_zero _)
  | cons reading along =>
    have hlen : s₁.ahead.length ≤ along.length := Nat.le_of_lt_succ (Nat.lt_of_lt_of_le hlt hle)
    have hitems : Yields ((do
        let items ← Parse.manyAlong construct item? along
        return a :: items) s₁) fits' (a :: as) s' := (hrest along hlen).followed rfl
    rw [Parse.manyAlong]
    exact h.bind hitems

/-- A loop goes on behind an item, if its bound covers the tokens ahead. -/
theorem manyAlong_of_some (h : item? s = .ok (some a) s₁)
    (hlt : s₁.ahead.length < s.ahead.length) (hle : s.ahead.length ≤ along.length)
    (hrest : ∀ along, s₁.ahead.length ≤ along.length →
      manyAlong construct item? along s₁ = .ok as s') :
    manyAlong construct item? along s = .ok (a :: as) s' :=
  (Yields.manyAlong (.of_ok h trivial) hlt hle fun along hle =>
    .of_ok (hrest along hle) trivial).1 ⟨trivial, trivial⟩

end

section
variable {σ : Type} {construct : String} {step? : σ → Parse (Option σ)} {along : List Reading}
  {s s₁ s' : TokenStream} {a b c : σ}

/-- What holds behind the last step, and is kept by a step in front, holds of a successful loop. -/
theorem foldAlong_ok {R : σ → TokenStream → σ → TokenStream → Prop}
    (hnone : ∀ {a s s'}, s.Ended → step? a s = .ok none s' → s'.Ended ∧ R a s a s')
    (hsome : ∀ {a b s s₁}, s.Ended → step? a s = .ok (some b) s₁ →
      s₁.Ended ∧ ∀ {c s'}, R b s₁ c s' → R a s c s')
    (hs : s.Ended) (h : foldAlong construct step? along a s = .ok c s') :
    s'.Ended ∧ R a s c s' := by
  induction along generalizing s a with
  | nil =>
    rw [foldAlong] at h
    obtain ⟨found, s₁, h₁, h⟩ := bind_ok h
    cases found with
    | none =>
      cases h
      exact hnone hs h₁
    | some b => exact absurd h fail_ne_ok
  | cons reading along ih =>
    rw [foldAlong] at h
    obtain ⟨found, s₁, h₁, h⟩ := bind_ok h
    cases found with
    | none =>
      cases h
      exact hnone hs h₁
    | some b =>
      obtain ⟨hs₁, hkeep⟩ := hsome hs h₁
      obtain ⟨hs', hrest⟩ := ih hs₁ h
      exact ⟨hs', hkeep hrest⟩

/-- A loop with a state is over where there is no step. -/
theorem foldAlong_of_none (h : step? a s = .ok none s') :
    foldAlong construct step? along a s = .ok a s' := by
  rw [foldAlong.eq_def, bind_of_ok h]
  rfl

/-- A step that takes a token comes before the rest of the loop. -/
theorem foldAlong_of_some (h : step? a s = .ok (some b) s₁)
    (hlt : s₁.ahead.length < s.ahead.length) (hle : s.ahead.length ≤ along.length)
    (hrest : ∀ along, s₁.ahead.length ≤ along.length →
      foldAlong construct step? along b s₁ = .ok c s') :
    foldAlong construct step? along a s = .ok c s' := by
  cases along with
  | nil => exact absurd (Nat.lt_of_lt_of_le hlt hle) (Nat.not_lt_zero _)
  | cons reading along =>
    rw [foldAlong, bind_of_ok h]
    exact hrest along (Nat.le_of_lt_succ (Nat.lt_of_lt_of_le hlt hle))

end

end Parse

end FormScript
