import FormScript.Component
import FormScript.Evaluation.Statement
import FormScript.Grammar.Program

/-!
# Compiling

A compilation parses a source text, runs it within the given limits, and gives the lines that were
printed, the forms that were declared and one component for each form. It either gives all of these
or the first error. What happens outside in the meantime, as far as a run looks there, is an
argument.
-/

namespace FormScript

/-- What a compilation gives. -/
structure Compilation where
  /-- The forms, in the order in which their names first came. -/
  forms : List FormDefinition
  /-- The component of each form. -/
  generated : List String
  /-- The printed lines. -/
  output : List String
  deriving DecidableEq, Repr

/-- Why a compilation gives nothing. -/
inductive Failure where
  | error (e : Error)
  /-- The run makes more loop passes than can be counted. -/
  | overflow
  /-- The run outlasts the bound on its loops. -/
  | unfinished
  deriving DecidableEq, Repr

/-- A run's reason to stop, as a compilation's. -/
def Failure.ofHalt : Halt → Failure
  | .error e => .error (.runtime e)
  | .overflow => .overflow
  | .unfinished => .unfinished

/-- Runs a statement, with loops bounded as the budget says. -/
def Run.statement (n : Node) : Run Unit := do
  exec (← get).budget.passes n

/-- What a machine has produced. -/
def Machine.compilation (m : Machine) : Compilation :=
  ⟨m.forms.forms, m.forms.forms.map Component.ofForm, m.output.toList⟩

/-- What is reported when a machine has finished. -/
def Machine.finished (m : Machine) : Event :=
  .compileFinished m.forms.size m.output.size m.budget.iterations

/-- Compiles a source text and reports to a log. -/
def compileLogged (options : Options) (outside : Outside) (log : Log) (source : String) :
    Except Failure Compilation × Log :=
  let log := log.record (.compileStarted source.utf8ByteSize)
  match parse source with
  | .error e => (.error (.error (.parse e)), log)
  | .ok root =>
    let log := log.record (.programParsed root.id)
    match Run.statement root (.start (.ofOptions options outside) log) with
    | .error h m => (.error (.ofHalt h), m.log)
    | .ok () m => (.ok m.compilation, m.log.record m.finished)

/-- Compiles a source text within limits. -/
def compileWith (options : Options) (outside : Outside) (source : String) :
    Except Failure Compilation :=
  (compileLogged options outside .off source).1

/-- Compiles a source text within the usual limits, with which a run never looks outside. -/
def compile (source : String) : Except Failure Compilation :=
  compileWith .default .still source

end FormScript
