/-!
# Types and values

A variable holds a value of one of three types: a 64-bit integer, a text or a truth value. `Ty` is
the type, `Value` the value, and `Value.type` ties the two together: a value never changes its type.
-/

namespace FormScript

/-- The type of a variable or of a value. -/
inductive Ty where
  | int
  | string
  | bool
  deriving DecidableEq, Repr, Inhabited

namespace Ty

/-- The word that names the type in a program. -/
def keyword : Ty → String
  | int => "int"
  | string => "string"
  | bool => "bool"

/-- The name of the type in messages. -/
def display : Ty → String
  | int => "INT"
  | string => "STRING"
  | bool => "BOOL"

end Ty

/-- A value of a running program. -/
inductive Value where
  | int (n : Int64)
  | string (s : String)
  | bool (b : Bool)
  deriving DecidableEq, Repr, Inhabited

/-- The word for a truth value, in programs and in output. -/
def boolText (b : Bool) : String :=
  if b then "true" else "false"

/-- The decimal digits of a 64-bit integer, with a minus sign in front of a negative one. -/
def intText (n : Int64) : String :=
  toString n.toInt

namespace Value

/-- The type of a value. -/
def type : Value → Ty
  | int _ => .int
  | string _ => .string
  | bool _ => .bool

/-- The text that printing a value writes: decimal digits, the text itself, `true` or `false`. -/
def display : Value → String
  | int n => intText n
  | string s => s
  | bool b => boolText b

end Value

end FormScript
