import FormScript.Arithmetic
import FormScript.Budget
import FormScript.Event
import FormScript.Form
import FormScript.Scope

/-!
# The state of a run

A `Machine` holds what a run reads and changes, and a `Run` is a computation on it. A run that stops
early leaves its machine as it is at that point. It stops with an error, or with an `overflow` when
there is no number left to count a loop pass with, or `unfinished` if it would make more loop passes
than it was given: a loop is bounded by a number of passes, and `Run.whileHolds` is the only place
where that number counts.
-/

namespace FormScript

/-- What a run works on. -/
structure Machine where
  scopes : Scopes
  forms : FormStore
  output : Array String
  budget : Budget
  log : Log

/-- The machine before a run. -/
def Machine.start (budget : Budget) (log : Log) : Machine :=
  ⟨.empty, .empty, #[], budget, log⟩

/-- Why a run stops early. -/
inductive Halt where
  | error (e : RuntimeError)
  /-- The counter of loop passes overflows. -/
  | overflow
  /-- A loop has used up its bound. -/
  | unfinished
  deriving DecidableEq, Repr

/-- A computation on a machine. -/
abbrev Run := EStateM Halt Machine

namespace Run

/-- The outcome of a computation that may fail. -/
def ofExcept {α : Type} : Except RuntimeError α → Run α
  | .ok a => pure a
  | .error e => throw (.error e)

/-- Stops with an error. -/
def fail {α : Type} (line : Nat) (fault : RuntimeFault) : Run α :=
  throw (.error ⟨line, fault⟩)

/-- Reports an event. -/
def record (e : Event) : Run Unit :=
  modify fun m => { m with log := m.log.record e }

/-- Takes the state of the limits over, and stops if one of them says so, which is reported. -/
def obey (line : Nat) (checked : Except RuntimeFault Unit × Budget) : Run Unit := do
  modify fun m => { m with budget := checked.2 }
  match checked.1 with
  | .ok () => return
  | .error fault => do
    if let some e := Event.ofLimit? line checked.2.iterations fault then
      record e
    fail line fault

/-- Looks at the signal and the clock, and stops if the signal was given or the time is over. -/
def checkBudget (line : Nat) : Run Unit := do
  obey line (← get).budget.check

/-- Goes by the limits for a loop pass that was counted, and stops if it could not be. -/
def obeyCounted (line : Nat) : Option (Except RuntimeFault Unit × Budget) → Run Unit
  | some charged => obey line charged
  | none => throw .overflow

/-- Counts a loop pass and stops if it is one too many. -/
def tick (line : Nat) : Run Unit := do
  obeyCounted line (← get).budget.tick?

/-- Declares a variable. -/
def declare (line : Nat) (name : String) (type : Ty) : Run Unit := do
  let scopes ← ofExcept (locate line ((← get).scopes.declare name type))
  modify fun m => { m with scopes }

/-- Writes a variable. -/
def assign (line : Nat) (name : String) (value : Value) : Run Unit := do
  let (result, scopes) := (← get).scopes.assign name value
  modify fun m => { m with scopes }
  ofExcept (locate line result)

/-- Prints a line. -/
def print (text : String) : Run Unit :=
  modify fun m => { m with output := m.output.push text }

/-- Stores a form and says whether it took the place of another one. -/
def register (form : FormDefinition) : Run Bool := do
  let (replaced, forms) := (← get).forms.insert form
  modify fun m => { m with forms }
  return replaced.isSome

/-- Runs `body` in an isolated frame, which is gone afterwards, however `body` ends. -/
def isolated {α : Type} (body : Run α) : Run α := fun m =>
  match body { m with scopes := m.scopes.push } with
  | .ok a m => .ok a { m with scopes := m.scopes.pop }
  | .error e m => .error e { m with scopes := m.scopes.pop }

/-- Makes passes while `condition` holds, each charged to the budget at `line`. A pass gets its
number, counted on from `done`, and the state that the one before left. Behind the last pass that
the bound allows, the loop gives up. -/
def whileHolds {σ : Type} (line : Nat) (condition : Run Bool) (pass : Nat → σ → Run σ) :
    (passes done : Nat) → σ → Run (Nat × σ)
  | passes, done, state => do
    if ← condition then
      tick line
      match passes with
      | 0 => throw .unfinished
      | passes + 1 =>
        let state ← pass (done + 1) state
        whileHolds line condition pass passes (done + 1) state
    else
      return (done, state)

end Run

end FormScript
