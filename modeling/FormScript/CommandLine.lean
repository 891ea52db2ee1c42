import FormScript.Compile
import FormScript.JsonDoc

/-!
# The command line

`Invocation.parse?` reads the arguments of a call: flags in any place, one argument with the program
or, with `--file`, with the name of a file that holds it. `Invocation.run` does what a call asks for
and gives the text for the two output channels with the exit code.
-/

namespace FormScript

/-- What a call of the program asks for. -/
structure Invocation where
  fromFile : Bool
  asJson : Bool
  maxIterations : Option UInt64
  timeout : Option Nat
  contents : String
  deriving DecidableEq, Repr

/-- The result of a call. -/
structure Outcome where
  exit : Nat
  stdout : String
  stderr : String
  deriving DecidableEq, Repr

/-- A flag without a value. -/
inductive Switch where
  | file
  | json
  deriving DecidableEq, Repr

namespace Switch

/-- The switch of a name, which stands behind two dashes. -/
def ofName? : String → Option Switch
  | "file" => some file
  | "json" => some json
  | _ => none

/-- The switch of a letter, which stands behind one dash. -/
def ofLetter? : Char → Option Switch
  | 'f' => some file
  | 'j' => some json
  | _ => none

end Switch

/-- A flag with a number. -/
inductive LimitFlag where
  | maxIterations
  | timeout
  deriving DecidableEq, Repr

/-- The flag of a name, which stands behind two dashes. -/
def LimitFlag.ofName? : String → Option LimitFlag
  | "max-iterations" => some maxIterations
  | "timeout-ms" => some timeout
  | _ => none

/-- The arguments read so far. -/
structure Arguments where
  fromFile : Bool
  asJson : Bool
  maxIterations : Option UInt64
  timeout : Option Nat
  contents : Option String

namespace Arguments

/-- No arguments. -/
def empty : Arguments :=
  ⟨false, false, none, none, none⟩

/-- The argument that is no flag, which may come once. -/
def addContents (a : Arguments) (contents : String) : Option Arguments :=
  match a.contents with
  | none => some { a with contents := some contents }
  | some _ => none

/-- A switch, which may come once. -/
def addSwitch (a : Arguments) : Switch → Option Arguments
  | .file => if a.fromFile then none else some { a with fromFile := true }
  | .json => if a.asJson then none else some { a with asJson := true }

/-- Switches of one letter, joined behind one dash. -/
def addLetters (a : Arguments) (letters : List Char) : Option Arguments :=
  letters.foldlM (fun a letter => do a.addSwitch (← Switch.ofLetter? letter)) a

/-- The value of an unsigned 64-bit decimal, which may start with a plus sign. -/
def number? (s : String) : Option Nat :=
  let digits := match s.toList with
    | '+' :: digits => digits
    | digits => digits
  if digits.isEmpty || !digits.all Char.isDigit then none
  else if digitsValue digits < UInt64.size then some (digitsValue digits) else none

/-- A limit, which may come once. -/
def addLimit (a : Arguments) (flag : LimitFlag) (value : String) : Option Arguments := do
  let n ← number? value
  match flag with
  | .maxIterations =>
    if a.maxIterations.isSome then none else some { a with maxIterations := some (.ofNat n) }
  | .timeout => if a.timeout.isSome then none else some { a with timeout := some n }

/-- Reads the arguments behind `--`, of which none is a flag. -/
def addRest (a : Arguments) (rest : List String) : Option Arguments :=
  rest.foldlM addContents a

/-- Splits a long flag from the value behind its equals sign. -/
def splitValue (cs : List Char) : String × Option String :=
  match cs.span (· != '=') with
  | (flag, _ :: value) => (String.ofList flag, some (String.ofList value))
  | (flag, []) => (String.ofList flag, none)

/-- Reads arguments, behind those that are read already. -/
def read (a : Arguments) : List String → Option Arguments
  | [] => some a
  | arg :: rest =>
    match arg.toList with
    | ['-', '-'] => a.addRest rest
    | '-' :: '-' :: long =>
      match splitValue long with
      | (name, some value) => do
        read (← a.addLimit (← LimitFlag.ofName? name) value) rest
      | (name, none) =>
        match LimitFlag.ofName? name with
        | some flag =>
          match rest with
          | [] => none
          | value :: rest => do read (← a.addLimit flag value) rest
        | none => do read (← a.addSwitch (← Switch.ofName? name)) rest
    | '-' :: letter :: letters => do read (← a.addLetters (letter :: letters)) rest
    | _ => do read (← a.addContents arg) rest

end Arguments

namespace Invocation

/-- The call that the arguments make, unless they are wrong. -/
def parse? (args : List String) : Option Invocation := do
  let a ← Arguments.empty.read args
  let contents ← a.contents
  return ⟨a.fromFile, a.asJson, a.maxIterations, a.timeout, contents⟩

/-- The limits that a call sets. -/
def options (i : Invocation) : Options :=
  { Options.default with
    maxIterations := i.maxIterations <|> Options.default.maxIterations
    timeout := i.timeout }

/-- The result of a call whose arguments are wrong. -/
def usage : Outcome :=
  ⟨2, "", "usage: formscript [-f | --file] [-j | --json] [--max-iterations N] [--timeout-ms MS] "
    ++ "CONTENTS\n"⟩

/-- What a compilation prints. -/
def report (i : Invocation) (c : Compilation) : String :=
  let results := if i.asJson then [(JsonDoc.ofForms c.forms).pretty] else c.generated
  String.join ((c.output ++ results).map (· ++ "\n"))

/-- Compiles a program and reports the result. -/
def runScript (i : Invocation) (outside : Outside) (script : String) : Outcome :=
  match compileWith i.options outside script with
  | .ok c => ⟨0, i.report c, ""⟩
  | .error (.error e) => ⟨1, "", s!"{e.kind.text}: {e.message}\n"⟩
  | .error .overflow => ⟨101, "", "The loop passes of the run cannot be counted.\n"⟩
  | .error .unfinished => ⟨1, "", "The run did not finish.\n"⟩

/-- Carries a call out. For a call that names a file, `file?` is what the file holds, if it can be
read. -/
def run (i : Invocation) (outside : Outside) (file? : Option String) : Outcome :=
  if i.fromFile then
    match file? with
    | some script => i.runScript outside script
    | none =>
      ⟨1, "", s!"Failed to read the input file '{i.contents}'. Perhaps this file does not exist?\n"⟩
  else
    i.runScript outside i.contents

end Invocation

end FormScript
