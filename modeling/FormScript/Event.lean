import FormScript.FieldKind
import FormScript.Error
import FormScript.Node

/-!
# Events

A compilation reports what it does as `Event`s. An event has a level, a message and named fields,
all of which follow from what happened. A `Log` keeps the events from its threshold on.
-/

namespace FormScript

/-- How important an event is. -/
inductive Level where
  | trace
  | debug
  | info
  | warn
  | error
  deriving DecidableEq, Repr, Inhabited

namespace Level

/-- The place of a level, the least important first. -/
def rank : Level → Nat
  | trace => 0
  | debug => 1
  | info => 2
  | warn => 3
  | error => 4

/-- The name of a level. -/
def text : Level → String
  | trace => "TRACE"
  | debug => "DEBUG"
  | info => "INFO"
  | warn => "WARN"
  | error => "ERROR"

end Level

/-- Something that happened during a compilation. -/
inductive Event where
  | compileStarted (bytes : Nat)
  | programParsed (root : Nat)
  | statementReached (line : Nat) (kind : String)
  | cancelled (line : Nat)
  | timedOut (line : Nat) (iterations : UInt64)
  | budgetExhausted (line : Nat) (limit : UInt64)
  | formRegistered (form : String) (line fields : Nat)
  | formReplaced (form : String)
  | loopUnrolled (form : String) (iterations : Nat)
  | propertyIgnored (field key : String) (kind : FieldKind)
  | compileFinished (forms outputLines : Nat) (iterations : UInt64)
  deriving DecidableEq, Repr

namespace Event

/-- How important an event is. -/
def level : Event → Level
  | compileStarted _ | formRegistered _ _ _ | formReplaced _ | propertyIgnored _ _ _
  | compileFinished _ _ _ => .debug
  | programParsed _ | statementReached _ _ | loopUnrolled _ _ => .trace
  | cancelled _ | timedOut _ _ | budgetExhausted _ _ => .warn

/-- What happened, in words. -/
def message : Event → String
  | compileStarted _ => "compile started"
  | programParsed _ => "parsed program"
  | statementReached _ _ => "statement"
  | cancelled _ => "compilation cancelled"
  | timedOut _ _ => "evaluation timed out"
  | budgetExhausted _ _ => "iteration budget exhausted"
  | formRegistered _ _ _ => "registered form"
  | formReplaced _ => "replaced earlier definition"
  | loopUnrolled _ _ => "unrolled form loop"
  | propertyIgnored _ _ _ => "ignoring property"
  | compileFinished _ _ _ => "compile finished"

/-- The particulars, each with its name. -/
def fields : Event → List (String × String)
  | compileStarted bytes => [("bytes", toString bytes)]
  | programParsed root => [("root", idText root)]
  | statementReached line kind => [("line", toString line), ("kind", kind)]
  | cancelled line => [("line", toString line)]
  | timedOut line iterations => [("line", toString line), ("iterations", toString iterations)]
  | budgetExhausted line limit => [("line", toString line), ("limit", toString limit)]
  | formRegistered form line fields =>
    [("form", form), ("line", toString line), ("fields", toString fields)]
  | formReplaced form => [("form", form)]
  | loopUnrolled form iterations => [("form", form), ("iterations", toString iterations)]
  | propertyIgnored field key kind => [("field", field), ("key", key), ("kind", kind.keyword)]
  | compileFinished forms outputLines iterations =>
    [("forms", toString forms), ("output_lines", toString outputLines),
      ("iterations", toString iterations)]

/-- What is reported when a limit stops a run. -/
def ofLimit? (line : Nat) (iterations : UInt64) : RuntimeFault → Option Event
  | .cancelled => some (.cancelled line)
  | .timedOut => some (.timedOut line iterations)
  | .iterationsExceeded limit => some (.budgetExhausted line limit)
  | _ => none

end Event

/-- The events from a threshold on. Without a threshold nothing is kept. -/
structure Log where
  threshold : Option Level
  events : Array Event
  deriving Repr, Inhabited

namespace Log

/-- A log that keeps nothing. -/
def off : Log :=
  ⟨none, #[]⟩

/-- An empty log for events of a level and above. -/
def ofLevel (level : Level) : Log :=
  ⟨some level, #[]⟩

/-- Whether an event reaches the threshold. -/
def keeps (l : Log) (e : Event) : Bool :=
  match l.threshold with
  | some level => level.rank ≤ e.level.rank
  | none => false

/-- Keeps an event that reaches the threshold. -/
def record (l : Log) (e : Event) : Log :=
  if l.keeps e then { l with events := l.events.push e } else l

end Log

end FormScript
