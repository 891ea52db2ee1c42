import FormScript.Proofs.Comments
import FormScript.Proofs.Contract
import FormScript.Proofs.Faults
import FormScript.Proofs.Equality
import FormScript.Proofs.Places

/-!
# Lines

Tokens, nodes and errors of all kinds name a line of the source text. A token is at the line that
the newlines before it give (`Reading.IsPlaced`), the nodes and errors of a parse are at lines of
readings (`Parse.Contract.linesOf`), and a run fails at lines of nodes. As a comment leaves its
newline behind, all of these are lines of the text with its comments (`reported_lines_exist`).
-/

namespace FormScript

/-- A reading is at a line of a text, and a token at the line that the newlines before it give. -/
structure Reading.IsPlaced (text : List Char) (reading : Reading) : Prop where
  one_le : 1 ≤ reading.line
  le_lines : reading.line ≤ 1 + text.count '\n'
  counted : ∀ lexeme, reading = .ok lexeme → lexeme.line = 1 + newlinesBefore lexeme.start text

namespace Scanner

/-- The next token of a text is placed in it. -/
theorem isPlaced_next (before ahead : List Char) :
    (between before ahead).next.1.IsPlaced (before ++ ahead) := by
  obtain ⟨w, rest, rfl, -, hline, hstart⟩ := next_between before ahead
  have hle : before.count '\n' ≤ (before ++ (w ++ rest)).count '\n' := by
    rw [List.count_append]
    omega
  refine ⟨by omega, by omega, fun lexeme h => ?_⟩
  rw [h] at hline
  rw [(hstart lexeme h).2]
  exact hline

/-- The readings from a place of a text on are those of the text. -/
theorem isPlaced_of_mem_readings {before ahead : List Char} {reading : Reading}
    (h : reading ∈ (between before ahead).readings) : reading.IsPlaced (before ++ ahead) := by
  generalize hs : between before ahead = s at h
  have hfirst := isPlaced_next before ahead
  induction s using induction_readings generalizing before ahead with
  | stop s hstep =>
    rw [hs, next, hstep] at hfirst
    rw [readings_of_none hstep, List.mem_singleton] at h
    exact h ▸ hfirst
  | step s first after hstep ih =>
    obtain ⟨w, rest, rfl, hafter, -⟩ := next_between before ahead
    rw [hs, next, hstep] at hfirst hafter
    rw [readings_of_some hstep] at h
    cases h with
    | head => exact hfirst
    | tail _ h =>
      have hnext := isPlaced_next (before ++ w) rest
      rw [← List.append_assoc]
      exact ih hafter.symm h hnext

/-- All tokens of a text are placed in it. -/
theorem isPlaced_of_mem_ofText {text : String} {reading : Reading}
    (h : reading ∈ (ofText text).readings) : reading.IsPlaced text.toList := by
  rw [ofText_eq_between] at h
  exact isPlaced_of_mem_readings h

end Scanner

/-- The lines at which the given readings stand. -/
def Parse.Contract.linesOf (readings : List Reading) : Parse.Contract where
  offers pending := ∀ reading ∈ pending, reading ∈ readings
  line n := ∃ reading ∈ readings, reading.line = n
  reports e := ∃ reading ∈ readings, reading.line = (Error.parse e).line
  line_of_offers h := ⟨_, h _ (.head _), rfl⟩
  offers_of_taken h := (List.forall_mem_cons.1 h).2
  reports_of_refused h := ⟨_, h _ (.head _), rfl⟩
  reports_of_line h := h

/-- A line of a source text at which something is to be read. -/
structure IsLineOf (source : String) (n : Nat) : Prop where
  one_le : 1 ≤ n
  le_lines : n ≤ 1 + source.toList.count '\n'
  /-- A token stands there, or what is none. -/
  reads : ∃ reading ∈ (Scanner.ofText (Text.stripComments source)).readings, reading.line = n

section
variable {source : String}

/-- Comments are cut off without their newlines, so the lines of what is left are those of the
text. -/
theorem isLineOf_of_reads {n : Nat}
    (h : ∃ reading ∈ (Scanner.ofText (Text.stripComments source)).readings, reading.line = n) :
    IsLineOf source n := by
  obtain ⟨reading, hmem, rfl⟩ := h
  have hplaced := Scanner.isPlaced_of_mem_ofText hmem
  have hle := hplaced.le_lines
  rw [Text.count_newline_stripComments] at hle
  exact ⟨hplaced.one_le, hle, reading, hmem, rfl⟩

/-- Every node of a tree is at a line of its source. -/
theorem isLineOf_of_parse_ok {root : Node} (h : parse source = .ok root) :
    ∀ n ∈ root.walk, IsLineOf source n.line := fun n hn =>
  isLineOf_of_reads (Parse.Contract.parse_ok (C := .linesOf _) (fun _ hmem => hmem) h n hn)

/-- Every error of the parser is at a line of the source. -/
theorem isLineOf_of_parse_error {e : ParseError} (h : parse source = .error e) :
    IsLineOf source (Error.parse e).line :=
  isLineOf_of_reads (Parse.Contract.parse_error (C := .linesOf _) (fun _ hmem => hmem) h)

/-- A run fails at lines of the nodes of its tree. -/
theorem isLineOf_of_exec {root : Node} (h : parse source = .ok root) (passes : Nat) :
    Run.FailsOnly (fun e => IsLineOf source e.line) (Run.exec passes root) :=
  Run.exec_failsOnly h (fun n hn _ _ => isLineOf_of_parse_ok h n hn) passes

end

/-- Every line that is reported exists in the source text, whether the text cannot be read, is no
program or fails when it is run, and so do the lines of all nodes of its tree and of all its tokens,
which are at the lines that the newlines before them give. -/
theorem reported_lines_exist (source : String) :
    (∀ options outside e, compileWith options outside source = .error (.error e) →
      IsLineOf source e.line) ∧
    (∀ root, parse source = .ok root → ∀ n ∈ root.walk, IsLineOf source n.line) ∧
    ∀ lexemes, tokenize source = .ok lexemes → ∀ lexeme ∈ lexemes, IsLineOf source lexeme.line ∧
      lexeme.line = 1 + newlinesBefore lexeme.start (Text.stripComments source).toList := by
  refine ⟨fun options outside e h => ?_, fun root h => isLineOf_of_parse_ok h,
    fun lexemes h lexeme hmem => ?_⟩
  · rcases compileWith_error h with ⟨e', hparse, rfl⟩ | ⟨root, e', m, m', hparse, rfl, hexec⟩
    · exact isLineOf_of_parse_error hparse
    · exact isLineOf_of_exec hparse _ hexec
  · have hreading : .ok lexeme ∈ (Scanner.ofText (Text.stripComments source)).readings := by
      rw [tokenize_eq_ok_iff.1 h]
      exact List.mem_map_of_mem hmem
    exact ⟨isLineOf_of_reads ⟨.ok lexeme, hreading, rfl⟩,
      (Scanner.isPlaced_of_mem_ofText hreading).counted lexeme rfl⟩

/-- A comment before the program shifts no line, and a signal is reported at the line of the
statement that it comes before. -/
theorem reported_lines_exist_behind_comment :
    ∃ source e e' root lexemes, compileWith .default .still source = .error (.error e) ∧
    e.line = 5 ∧
      IsLineOf source e.line ∧
      compileWith ⟨none, none, some false⟩ (fun look => ⟨0, look = 1⟩) source =
        .error (.error e') ∧ e'.line = 4 ∧ IsLineOf source e'.line ∧
      parse source = .ok root ∧ (∀ n ∈ root.walk, IsLineOf source n.line) ∧
      tokenize source = .ok lexemes ∧ ∀ lexeme ∈ lexemes, IsLineOf source lexeme.line := by
  have hparse : parse "//\n\x7b\nvar x int\nx=1\nx=y\n\x7d" = .ok
      (.block ⟨7, 2⟩ [.declare ⟨0, 3⟩ "x" .int none,
        .assign ⟨3, 4⟩ (.ident ⟨1, 4⟩ "x") (.int ⟨2, 4⟩ 1),
        .assign ⟨6, 5⟩ (.ident ⟨4, 5⟩ "x") (.ident ⟨5, 5⟩ "y")]) := by
    decide +kernel
  have hcompile : compileWith .default .still "//\n\x7b\nvar x int\nx=1\nx=y\n\x7d" =
      .error (.error (.runtime ⟨5, .undeclared "y"⟩)) := by
    decide +kernel
  have hsignal : compileWith ⟨none, none, some false⟩ (fun look => ⟨0, look = 1⟩)
        "//\n\x7b\nvar x int\nx=1\nx=y\n\x7d" = .error (.error (.runtime ⟨4, .cancelled⟩)) := by
    decide +kernel
  have htokens : tokenize "//\n\x7b\nvar x int\nx=1\nx=y\n\x7d" = .ok
      [⟨.newline, 1, 0, 1⟩, ⟨.mark .openBrace, 2, 1, 2⟩, ⟨.newline, 2, 2, 3⟩,
        ⟨.keyword .declare, 3, 3, 6⟩, ⟨.identifier "x", 3, 7, 8⟩, ⟨.typeName .int, 3, 9, 12⟩,
        ⟨.newline, 3, 12, 13⟩, ⟨.identifier "x", 4, 13, 14⟩, ⟨.mark .assign, 4, 14, 15⟩,
        ⟨.integer 1, 4, 15, 16⟩, ⟨.newline, 4, 16, 17⟩, ⟨.identifier "x", 5, 17, 18⟩,
        ⟨.mark .assign, 5, 18, 19⟩, ⟨.identifier "y", 5, 19, 20⟩, ⟨.newline, 5, 20, 21⟩,
        ⟨.mark .closeBrace, 6, 21, 22⟩, ⟨.endOfInput, 6, 22, 22⟩] := by
    decide +kernel
  obtain ⟨herrors, hnodes, hlexemes⟩ := reported_lines_exist "//\n\x7b\nvar x int\nx=1\nx=y\n\x7d"
  exact ⟨_, _, _, _, _, hcompile, rfl, herrors _ _ _ hcompile, hsignal, rfl, herrors _ _ _ hsignal,
    hparse, hnodes _ hparse, htokens, fun lexeme hmem => (hlexemes _ htokens lexeme hmem).1⟩

end FormScript
