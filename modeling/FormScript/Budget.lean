import FormScript.Error

/-!
# Limits of a run

A run can be limited in the number of loop passes, in time, and by a signal to stop. `Options` says
what limits a caller sets, `Budget` is the state of the limits during a run.

Passes are counted in 64 bits, and the count is checked. A pass that there is no number left for is
not made: the counter overflows, and the run stops there whatever its limit is, with neither a
result nor an error. A count that is not checked would start over instead, so what a run does from
there on depends on the check. What it does before that pass does not.

The clock and the signal are outside, and change while a run is under way. A run looks at them
before each statement of a block and at each loop pass. An `Outside` says what has happened by each
of these looks, so what holds for every `Outside` holds wherever the time runs out and the signal
comes.
-/

namespace FormScript

/-- The limits that a caller sets. -/
structure Options where
  /-- The number of loop passes. -/
  maxIterations : Option UInt64
  /-- The time in milliseconds. -/
  timeout : Option Nat
  /-- Whether the signal to stop has been given, if there is one. -/
  cancellation : Option Bool
  deriving DecidableEq, Repr, Inhabited

namespace Options

/-- The number of loop passes that a run gets if the caller does not say. -/
def defaultMaxIterations : UInt64 := 1000000

/-- No limits. -/
def unbounded : Options :=
  ⟨none, none, none⟩

/-- The limits of a caller who does not set any. -/
def default : Options :=
  { unbounded with maxIterations := some defaultMaxIterations }

end Options

/-- What has happened outside a run since its last look there. -/
structure Lapse where
  /-- The time that has passed, in milliseconds. -/
  elapsed : Nat
  /-- Whether the signal to stop has been given. -/
  signalled : Bool
  deriving DecidableEq, Repr, Inhabited

/-- What happens outside a run, look by look. -/
abbrev Outside := Nat → Lapse

/-- No time passes and no signal is given. -/
def Outside.still : Outside :=
  fun _ => ⟨0, false⟩

/-- The limits during a run and what was used of them so far. -/
structure Budget where
  /-- The number of loop passes, if it is limited. -/
  limit : Option UInt64
  /-- The loop passes counted so far. -/
  iterations : UInt64
  /-- The time that was left at the last look, if it is limited. -/
  timeLeft : Option Nat
  /-- Whether the signal to stop was seen, if there is one. -/
  cancellation : Option Bool
  /-- The looks outside so far. -/
  looks : Nat
  outside : Outside

namespace Budget

/-- The budget at the start of a run. -/
def ofOptions (o : Options) (outside : Outside) : Budget :=
  ⟨o.maxIterations, 0, o.timeout, o.cancellation, 0, outside⟩

/-- A budget without limits. -/
def unbounded : Budget :=
  ofOptions .unbounded .still

/-- Gives the signal to stop, if there is one. -/
def cancel (b : Budget) : Budget :=
  { b with cancellation := b.cancellation.map fun _ => true }

/-- Looks at the clock and the signal, if there is anything to look for. The time that has passed is
gone, and a signal that was given once stays. -/
def look (b : Budget) : Budget :=
  if b.timeLeft = none ∧ b.cancellation = none then b
  else
    let lapse := b.outside b.looks
    { b with
      timeLeft := b.timeLeft.map (· - lapse.elapsed)
      cancellation := b.cancellation.map (· || lapse.signalled)
      looks := b.looks + 1 }

/-- Whether the run may go on after what was seen at the last look: the signal comes before the
clock. -/
def verdict (b : Budget) : Except RuntimeFault Unit :=
  if b.cancellation = some true then .error .cancelled
  else if b.timeLeft = some 0 then .error .timedOut
  else .ok ()

/-- Looks outside and says whether the run may go on. -/
def check (b : Budget) : Except RuntimeFault Unit × Budget :=
  (b.look.verdict, b.look)

/-- Counts a loop pass, if there is a number left for it. -/
def count? (b : Budget) : Option Budget :=
  if b.iterations.toNat + 1 < UInt64.size then some { b with iterations := b.iterations + 1 }
  else none

/-- Says whether the loop pass that was just counted may be made: the limit comes before the look
outside. -/
def charge (b : Budget) : Except RuntimeFault Unit × Budget :=
  match b.limit with
  | some limit => if limit < b.iterations then (.error (.iterationsExceeded limit), b) else b.check
  | none => b.check

/-- Counts a loop pass and says whether it may be made, unless the counter overflows. -/
def tick? (b : Budget) : Option (Except RuntimeFault Unit × Budget) :=
  b.count?.map charge

/-- As many passes as any loop can make before the run ends: the limit, or the range of the
counter. -/
def passes (b : Budget) : Nat :=
  match b.limit with
  | some limit => limit.toNat
  | none => UInt64.size - 1

end Budget

end FormScript
