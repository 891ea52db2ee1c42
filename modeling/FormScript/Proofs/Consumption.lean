import FormScript.Proofs.Contract

/-!
# Tokens that a stream hands out

A stream reads one token ahead of what it has handed out, and a reading that is no token fails the
call that comes upon it. Still no token is lost, given twice or in another order: what has been
consumed and the lookahead are the tokens among the first so many answers of the scanner
(`calls_consume_prefix`), after any calls of the stream's operations and of the grammar's rules, of
which any may have failed.

`TokenStream.Delivers s consumed s'` says which tokens can be consumed on the way from `s` to `s'`.
That the rules do nothing else to a stream is a `Parse.Law`.
-/

namespace FormScript

open Grammar Parse

/-! ## The answers of a scanner -/

namespace Scanner

/-- The scanner after `n` calls of `next`. -/
def after (s : Scanner) : Nat → Scanner
  | 0 => s
  | n + 1 => (s.after n).next.2

/-- The answers to the first `n` calls of `next`. -/
def answers (s : Scanner) : Nat → List Reading
  | 0 => []
  | n + 1 => s.answers n ++ [(s.after n).next.1]

/-- The tokens among the first `n` answers. -/
def lexed (s : Scanner) (n : Nat) : List Lexeme :=
  (s.answers n).filterMap Except.toOption

/-- A call that is answered with a token adds it to the tokens. -/
theorem lexed_succ_of_ok {s : Scanner} {n : Nat} {lexeme : Lexeme}
    (h : (s.after n).next.1 = .ok lexeme) : s.lexed (n + 1) = s.lexed n ++ [lexeme] := by
  rw [lexed, answers, List.filterMap_append, h]
  rfl

/-- A call that is answered with an error adds no token. -/
theorem lexed_succ_of_error {s : Scanner} {n : Nat} {e : LexError}
    (h : (s.after n).next.1 = .error e) : s.lexed (n + 1) = s.lexed n := by
  rw [lexed, answers, List.filterMap_append, h]
  exact List.append_nil _

/-- At the end of a text there are no blanks to skip. -/
theorem skipBlanks_of_nil {s : Scanner} (h : s.rest = []) : s.skipBlanks = s := by
  obtain ⟨rest, offset, line⟩ := s
  obtain rfl : rest = [] := h
  rfl

/-- The first reading is the next answer. The end of input is answered for ever. -/
theorem next_of_readings_ok {s : Scanner} {lexeme : Lexeme} {rest : List Reading}
    (h : s.readings = .ok lexeme :: rest) : s.next.1 = .ok lexeme ∧
      (rest = s.next.2.readings ∨ rest = [] ∧ s.next.2.next = (.ok lexeme, s.next.2)) := by
  cases hstep : s.step? with
  | some found =>
    rw [readings_of_some hstep] at h
    rw [next, hstep]
    exact ⟨(List.cons.inj h).1, .inl (List.cons.inj h).2.symm⟩
  | none =>
    rw [readings_of_none hstep] at h
    cases h
    have hnil : s.skipBlanks.rest = [] := rest_of_step?_eq_none hstep
    have hagain : s.skipBlanks.next = (.ok s.skipBlanks.endLexeme, s.skipBlanks) := by
      have hsame := skipBlanks_of_nil hnil
      rw [next, step?_of_nil (by rw [hsame, hnil]), hsame]
      rfl
    rw [next, hstep]
    exact ⟨rfl, .inr ⟨rfl, hagain⟩⟩

/-- The first reading is an error if the first call is answered with it. -/
theorem next_of_readings_error {s : Scanner} {e : LexError} {rest : List Reading}
    (h : s.readings = .error e :: rest) : s.next.1 = .error e ∧ rest = s.next.2.readings := by
  cases hstep : s.step? with
  | some found =>
    rw [readings_of_some hstep] at h
    rw [next, hstep]
    exact ⟨(List.cons.inj h).1, (List.cons.inj h).2.symm⟩
  | none =>
    rw [readings_of_none hstep] at h
    cases h

end Scanner

/-! ## What is consumed -/

/-- On the way from `s` to `s'` the given tokens can be consumed. A reading that is no token is
passed by, and numbers of nodes and levels do not matter. -/
inductive TokenStream.Delivers (s : TokenStream) : List Lexeme → TokenStream → Prop where
  | refl : Delivers s [] s
  | taken {s₁ s' : TokenStream} {consumed : List Lexeme} {lexeme : Lexeme}
      (before : Delivers s consumed s₁)
      (take : advance s₁ = .ok lexeme s') : Delivers s (consumed ++ [lexeme]) s'
  | refused {s₁ s' : TokenStream} {consumed : List Lexeme} {e : ParseError}
      (before : Delivers s consumed s₁)
      (refuse : advance s₁ = .error e s') : Delivers s consumed s'
  | same {s₁ s' : TokenStream} {consumed : List Lexeme} (before : Delivers s consumed s₁)
      (current : s'.current = s₁.current) (ahead : s'.ahead = s₁.ahead) : Delivers s consumed s'

namespace TokenStream

variable {s₀ s s' : TokenStream} {consumed : List Lexeme}

/-- The stream stands behind the answers of a scanner: what was consumed and the lookahead are the
tokens among the first of them, and what is ahead are the others. -/
def StandsBehind (scanner : Scanner) (consumed : List Lexeme) (s : TokenStream) : Prop :=
  ∃ n, consumed ++ [s.current] = scanner.lexed n ∧
    (s.ahead = (scanner.after n).readings ∨
      s.ahead = [] ∧ (scanner.after n).next = (.ok s.current, scanner.after n))

/-- The stream over a text stands behind the first answer, and nothing is consumed yet. -/
theorem StandsBehind.of_ofText {text : String} (h : ofText text = .ok s) :
    s.StandsBehind (Scanner.ofText text) [] := by
  obtain ⟨hnext, hahead⟩ := Scanner.next_of_readings_ok (ofText_ok h).1.symm
  exact ⟨1, (Scanner.lexed_succ_of_ok (n := 0) hnext).symm, hahead⟩

/-- A stream from which a token is taken stands behind one answer more, with that token consumed. -/
theorem StandsBehind.taken {scanner : Scanner} {lexeme : Lexeme}
    (h : s.StandsBehind scanner consumed) (take : advance s = .ok lexeme s') :
    s'.StandsBehind scanner (consumed ++ [lexeme]) := by
  obtain ⟨n, hconsumed, hahead | ⟨hnil, hagain⟩⟩ := h
  · obtain ⟨rfl, ⟨hnil, -⟩ | ⟨following, ahead, hcons, rfl⟩⟩ := advance_cases take
    · obtain ⟨before, last, heq, -⟩ := (scanner.after n).readings_eq
      rw [hnil, heq] at hahead
      simp at hahead
    · obtain ⟨hnext, hahead⟩ := Scanner.next_of_readings_ok (hahead.symm.trans hcons)
      exact ⟨n + 1, by rw [Scanner.lexed_succ_of_ok hnext, hconsumed], hahead⟩
  · -- the end of input is taken once more
    obtain ⟨rfl, ⟨-, rfl⟩ | ⟨following, ahead, hcons, -⟩⟩ := advance_cases take
    · have hnext : (scanner.after n).next.1 = .ok s'.current := by rw [hagain]
      refine ⟨n + 1, by rw [Scanner.lexed_succ_of_ok hnext, hconsumed], .inr ⟨hnil, ?_⟩⟩
      rw [Scanner.after, hagain]
      exact hagain
    · rw [hnil] at hcons
      cases hcons

/-- A stream that cannot go on has consumed nothing more. -/
theorem StandsBehind.refused {scanner : Scanner} {e : ParseError}
    (h : s.StandsBehind scanner consumed) (refuse : advance s = .error e s') :
    s'.StandsBehind scanner consumed := by
  obtain ⟨fault, ahead, hcons, -, rfl⟩ := advance_error refuse
  obtain ⟨n, hconsumed, hahead | ⟨hnil, -⟩⟩ := h
  · obtain ⟨hnext, hahead⟩ := Scanner.next_of_readings_error (hahead.symm.trans hcons)
    exact ⟨n + 1, by rw [Scanner.lexed_succ_of_error hnext, hconsumed], .inl hahead⟩
  · rw [hnil] at hcons
    cases hcons

/-- However a stream over a text comes to where it stands, it stands behind the answers of the
scanner. -/
theorem Delivers.standsBehind {text : String} (h : ofText text = .ok s₀)
    (hd : s₀.Delivers consumed s) : s.StandsBehind (Scanner.ofText text) consumed := by
  induction hd with
  | refl => exact .of_ofText h
  | taken _ take ih => exact ih.taken take
  | refused _ refuse ih => exact ih.refused refuse
  | same _ current ahead ih =>
    obtain ⟨n, hn⟩ := ih
    exact ⟨n, by rwa [current, ahead]⟩

/-! ## What calls do to a stream -/

/-- A stream from which a token is taken still comes to the end of input. -/
theorem Ended.taken {lexeme : Lexeme} (hs : s.Ended) (take : advance s = .ok lexeme s') :
    s'.Ended := by
  obtain ⟨-, ⟨-, rfl⟩ | ⟨following, ahead, hahead, rfl⟩⟩ := advance_cases take
  · exact hs
  · have htakes : s.Takes s.current.token { s with current := following, ahead } :=
      ⟨rfl, following, ahead, hahead, rfl⟩
    exact htakes.ended hs

/-- A stream that cannot go on still comes to the end of input. -/
theorem Ended.refused {e : ParseError} (hs : s.Ended) (refuse : advance s = .error e s') :
    s'.Ended := by
  obtain ⟨fault, ahead, hahead, -, rfl⟩ := advance_error refuse
  obtain ⟨before, last, hpending, hlast⟩ := hs
  rw [pending, hahead] at hpending
  -- the end of input is not the reading that is passed by
  cases before with
  | nil => cases hpending
  | cons first before =>
    cases before with
    | nil => cases (List.cons.inj hpending).2
    | cons second before =>
      have htail := (List.cons.inj (List.cons.inj hpending).2).2
      exact ⟨.ok s.current :: before, last, congrArg _ htail, hlast⟩

end TokenStream

/-- Rules do nothing to a stream but consume its tokens one by one. -/
def Parse.Law.deliveries (s₀ : TokenStream) : Parse.Law where
  holds s := s.Ended ∧ ∃ consumed, s₀.Delivers consumed s
  line _ := True
  fails _ s := s.Ended ∧ ∃ consumed, s₀.Delivers consumed s
  line_of_holds _ := trivial
  taken hs take := ⟨hs.1.taken take, hs.2.elim fun _ h => ⟨_, h.taken take⟩⟩
  refused hs refuse := ⟨hs.1.refused refuse, hs.2.elim fun _ h => ⟨_, h.refused refuse⟩⟩
  unfit hs _ := hs
  entered hs _ := ⟨hs.1, hs.2.elim fun _ h => ⟨_, h.same rfl rfl⟩⟩
  left hs := ⟨hs.1, hs.2.elim fun _ h => ⟨_, h.same rfl rfl⟩⟩
  numbered hs := ⟨hs.1, hs.2.elim fun _ h => ⟨_, h.same rfl rfl⟩⟩

/-- The calls that can be made of a stream: its own operations and the rules of the grammar. -/
inductive Call where
  | check (token : Token)
  | advance
  | eat (token : Token)
  | expect (token : Token) (construct : String)
  | expectIdentifier (construct : String)
  | skipNewlines
  | rule (r : Rule)

namespace Call

/-- A call, whose answer does not matter. -/
def run : Call → Parse Unit
  | .check token => do let _ ← Parse.check token
  | .advance => do let _ ← Parse.advance
  | .eat token => do let _ ← Parse.eat token
  | .expect token construct => do let _ ← Parse.expect token construct
  | .expectIdentifier construct => do let _ ← Parse.expectIdentifier construct
  | .skipNewlines => Parse.skipNewlines
  | .rule r => do let _ ← r.run

/-- The stream that a call leaves, whether it succeeds or fails. -/
def leaves (call : Call) (s : TokenStream) : TokenStream :=
  match call.run s with
  | .ok _ s' | .error _ s' => s'

section
variable {L : Law} (hline : ∀ n, L.line n) (hended : ∀ {s}, L.holds s → s.Ended)
include hline hended

/-- Where all lines are allowed, calls keep every law of streams that end. -/
theorem run_keeps (call : Call) : L.Keeps (fun _ => True) call.run := by
  cases call with
  | check token => exact (Law.Keeps.check token).bind fun _ _ => .pure trivial
  | advance => exact Law.Keeps.advance.bind fun _ _ => .pure trivial
  | eat token => exact (Law.Keeps.eat token).bind fun _ _ => .pure trivial
  | expect token construct => exact (Law.Keeps.expect token construct).bind fun _ _ => .pure trivial
  | expectIdentifier construct =>
    exact (Law.Keeps.expectIdentifier construct).bind fun _ _ => .pure trivial
  | skipNewlines => exact fun s hs => Law.run_keeps (r := .lineEnds) trivial (hended hs) hs
  | rule r =>
    have hrun : L.Keeps _ r.run :=
      fun s hs => Law.run_keeps (Law.ready_of_lines hline r) (hended hs) hs
    exact hrun.bind fun _ _ => .pure trivial

/-- A call leaves a stream of the law, if streams at which calls fail are of the law. -/
theorem leaves_holds (hfails : ∀ {e s}, L.fails e s → L.holds s) (call : Call) {s : TokenStream}
    (hs : L.holds s) : L.holds (call.leaves s) := by
  have hallows := run_keeps hline hended call s hs
  unfold leaves
  cases hrun : call.run s with
  | ok u s' =>
    rw [hrun] at hallows
    exact hallows.2
  | error e s' =>
    rw [hrun] at hallows
    exact hfails hallows

end

/-- The calls that consume one token at most. -/
def single : Call → Bool
  | .skipNewlines | .rule _ => false
  | _ => true

/-- Whether a call consumes the lookahead, if this is the given token. -/
def wants : Call → Token → Bool
  | .advance, _ => true
  | .eat token, here | .expect token _, here => here = token
  | .expectIdentifier _, .identifier _ => true
  | _, _ => false

/-- A call of a single token consumes the lookahead if it wants it, and else leaves the stream as it
is. -/
theorem run_single {call : Call} (h : call.single) (s : TokenStream) :
    call.wants s.current.token = true ∧ call.run s = Call.advance.run s ∨
    call.wants s.current.token = false ∧
      (call.run s = .ok () s ∨ ∃ g, call.run s = .error (.grammar g) s) := by
  have hadvance : ∀ {α : Type} {p : Parse α} (f : Lexeme → α),
      p s = (Parse.advance >>= fun lexeme => pure (f lexeme)) s →
      (p >>= fun _ => pure ()) s = Call.advance.run s := by
    intro α p f hp
    cases htake : Parse.advance s with
    | ok lexeme s' =>
      have hrun : p s = .ok (f lexeme) s' := hp.trans (bind_of_ok htake)
      have hcall : Call.advance.run s = .ok () s' := bind_of_ok htake
      exact (bind_of_ok hrun).trans hcall.symm
    | error e s' =>
      have hrun : p s = .error e s' := hp.trans (bind_of_error htake)
      have hcall : Call.advance.run s = .error e s' := bind_of_error htake
      exact (bind_of_error hrun).trans hcall.symm
  have hunfit : ∀ {α : Type} {p : Parse α} (expected construct : String),
      p s = (unexpected expected construct : Parse α) s →
      ∃ g, (p >>= fun _ => pure ()) s = .error (.grammar g) s :=
    fun _ _ hp => ⟨_, bind_of_error (hp.trans rfl)⟩
  cases call with
  | check token => exact .inr ⟨rfl, .inl rfl⟩
  | advance => exact .inl ⟨rfl, rfl⟩
  | eat token =>
    by_cases htoken : s.current.token = token
    · refine .inl ⟨decide_eq_true htoken, hadvance (fun _ => true) ?_⟩
      rw [Parse.eat, check_bind, if_pos (decide_eq_true htoken)]
    · exact .inr ⟨decide_eq_false htoken, .inl (bind_of_ok (eat_of_ne htoken))⟩
  | expect token construct =>
    by_cases htoken : s.current.token = token
    · refine .inl ⟨decide_eq_true htoken, hadvance id ?_⟩
      rw [Parse.expect, check_bind, if_pos (decide_eq_true htoken)]
      exact (congrFun (bind_pure Parse.advance) s).symm
    · refine .inr ⟨decide_eq_false htoken, .inr (hunfit token.display construct ?_)⟩
      rw [Parse.expect, check_bind, if_neg (by simpa using htoken)]
  | expectIdentifier construct =>
    cases htoken : s.current.token with
    | identifier name =>
      refine .inl ⟨rfl, hadvance (fun _ => name) ?_⟩
      rw [Parse.expectIdentifier, peek_bind, htoken]
    | _ =>
      refine .inr ⟨rfl, .inr (hunfit "an identifier" construct ?_)⟩
      rw [Parse.expectIdentifier, peek_bind, htoken]
  | skipNewlines => cases h
  | rule r => cases h

/-- A call for the next token that succeeds has taken the lookahead. -/
theorem advance_run_ok {s s' : TokenStream} (h : Call.advance.run s = .ok () s') :
    Parse.advance s = .ok s.current s' := by
  obtain ⟨lexeme, s₁, htake, h⟩ := bind_ok h
  cases h
  obtain ⟨rfl, -⟩ := advance_cases htake
  exact htake

/-- A call for the next token fails where taking it fails. -/
theorem advance_run_error {s s' : TokenStream} {e : ParseError}
    (h : Call.advance.run s = .error e s') : Parse.advance s = .error e s' := by
  cases htake : Parse.advance s with
  | ok lexeme s₁ =>
    rw [Call.run, bind_of_ok htake] at h
    cases h
  | error e₁ s₁ =>
    rw [Call.run, bind_of_error htake] at h
    cases h
    rfl

end Call

/-- The tokens of a text are handed out in order, none of them twice and none left out. Whatever
calls are made of a stream over the text, and whether they succeed or fail, the tokens consumed so
far and the lookahead are the tokens among the first so many answers of the scanner. A call of a
single token consumes the lookahead if it wants it and nothing else. If it fails because the
lookahead does not fit it consumes nothing, and if it comes upon a reading that is no token it keeps
the lookahead and passes that reading by. -/
theorem calls_consume_prefix {text : String} {s₀ : TokenStream}
    (hs₀ : TokenStream.ofText text = .ok s₀) :
    (∀ calls : List Call, ∃ consumed,
      s₀.Delivers consumed (calls.foldl (fun s call => call.leaves s) s₀)) ∧
    (∀ consumed s, s₀.Delivers consumed s → ∃ n,
      consumed ++ [s.current] = (Scanner.ofText text).lexed n) ∧
    ∀ (call : Call) (s s' : TokenStream), call.single →
      (call.run s = .ok () s' → if call.wants s.current.token
        then Parse.advance s = .ok s.current s' else s' = s) ∧
      (∀ g, call.run s = .error (.grammar g) s' → s' = s) ∧
      ∀ e, call.run s = .error (.lexical e) s' →
        s'.current = s.current ∧ s.ahead = .error e :: s'.ahead := by
  refine ⟨fun calls => ?_, fun consumed s h => ?_, fun call s s' hsingle => ?_⟩
  · have hstart : (Parse.Law.deliveries s₀).holds s₀ := ⟨TokenStream.ended_of_ofText hs₀, [], .refl⟩
    have hholds : ∀ s, (Parse.Law.deliveries s₀).holds s →
        (Parse.Law.deliveries s₀).holds (calls.foldl (fun s call => call.leaves s) s) := by
      induction calls with
      | nil => exact fun s hs => hs
      | cons call calls ih =>
        exact fun s hs => ih _ (call.leaves_holds (fun _ => trivial) And.left id hs)
    exact (hholds s₀ hstart).2
  · obtain ⟨n, hconsumed, -⟩ := h.standsBehind hs₀
    exact ⟨n, hconsumed⟩
  · rcases Call.run_single hsingle s with ⟨hwants, hrun⟩ | ⟨hwants, hrun | ⟨g, hrun⟩⟩
    · rw [hrun, hwants]
      refine ⟨fun h => Call.advance_run_ok h, fun g h => ?_, fun e h => ?_⟩
      · obtain ⟨fault, ahead, -, heq, -⟩ := advance_error (Call.advance_run_error h)
        cases heq
      · obtain ⟨fault, ahead, hahead, heq, rfl⟩ := advance_error (Call.advance_run_error h)
        cases heq
        exact ⟨rfl, hahead⟩
    · rw [hrun, hwants]
      refine ⟨fun h => (EStateM.Result.ok.inj h).2.symm, fun g h => ?_, fun e h => ?_⟩
      · cases h
      · cases h
    · rw [hrun]
      refine ⟨fun h => ?_, fun g h => (EStateM.Result.error.inj h).2.symm, fun e h => ?_⟩
      · cases h
      · cases h

/-- A stray character fails the call that comes upon it and the statement that is called next, and
still what is consumed in the end and the lookahead are tokens of the text in their order. -/
theorem calls_consume_prefix_stray :
    ∃ s₀, TokenStream.ofText "x # = y" = .ok s₀ ∧
      (∃ consumed n, s₀.Delivers consumed ((Call.rule .statement).leaves (Call.advance.leaves s₀)) ∧
        consumed ++ [((Call.rule .statement).leaves (Call.advance.leaves s₀)).current] =
          (Scanner.ofText "x # = y").lexed n) ∧
      (∃ s s' e, Call.advance.run s = .error (.lexical e) s' ∧ s'.current = s.current) ∧
      ∃ s s' g, (Call.expect (.mark .comma) "array").run s = .error (.grammar g) s' ∧ s' = s := by
  have hok : (TokenStream.ofText "x # = y").isOk = true := by decide +kernel
  cases hs₀ : TokenStream.ofText "x # = y" with
  | error e =>
    rw [hs₀] at hok
    cases hok
  | ok s₀ =>
    obtain ⟨hcalls, hprefix, hsingle⟩ := calls_consume_prefix hs₀
    obtain ⟨consumed, hconsumed⟩ := hcalls [.advance, .rule .statement]
    obtain ⟨n, hn⟩ := hprefix consumed _ hconsumed
    refine ⟨s₀, rfl, ⟨consumed, n, hconsumed, hn⟩, ?_, ?_⟩
    · exact ⟨⟨⟨.identifier "x", 1, 0, 1⟩, [.error ⟨1, .unexpectedCharacter '#'⟩], 0, 0⟩, _, _, rfl,
        ((hsingle .advance _ _ rfl).2.2 _ rfl).1⟩
    · exact ⟨⟨⟨.identifier "x", 1, 0, 1⟩, [], 0, 0⟩, _, _, rfl,
        (hsingle (.expect (.mark .comma) "array") _ _ rfl).2.1 _ rfl⟩

end FormScript
