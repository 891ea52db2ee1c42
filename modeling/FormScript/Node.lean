import FormScript.FieldKind
import FormScript.Operator
import FormScript.Value

/-!
# The tree of a program

A program is a tree of `Node`s. Each node has an `Origin`: the line on which it starts and a number
that no other node of the tree has. One type holds expressions, statements and the parts of forms,
so that a run can say what it met where it had use for something else; `Node.describe` is the word
it uses then.
-/

namespace FormScript

/-- Where a node comes from. -/
structure Origin where
  id : Nat
  line : Nat
  deriving DecidableEq, Repr, Inhabited

/-- A node of a program's tree. -/
inductive Node where
  | int (origin : Origin) (value : Int64)
  | str (origin : Origin) (value : String)
  | bool (origin : Origin) (value : Bool)
  | ident (origin : Origin) (name : String)
  | unary (origin : Origin) (op : UnaryOp) (operand : Node)
  | binary (origin : Origin) (op : BinaryOp) (left right : Node)
  /-- Statements in braces, which share the scope around them. -/
  | block (origin : Origin) (body : List Node)
  | assign (origin : Origin) (target value : Node)
  | declare (origin : Origin) (name : String) (type : Ty) (init : Option Node)
  | branch (origin : Origin) (condition positive : Node) (negative : Option Node)
  | loop (origin : Origin) (condition body : Node)
  | print (origin : Origin) (expr : Node)
  /-- A read from an input that is not there, which gives zero. -/
  | scan (origin : Origin)
  | field (origin : Origin) (kind : FieldKind) (name : String) (properties : List Node)
  /-- A property with a single value. -/
  | scalar (origin : Origin) (key : String) (value : Node)
  /-- A property with a list of values. -/
  | array (origin : Origin) (key : String) (items : List Node)
  | form (origin : Origin) (name : String) (body : List Node)
  /-- An empty line. -/
  | blank (origin : Origin)
  deriving Repr, Inhabited

namespace Node

/-- Where a node comes from. -/
def origin : Node → Origin
  | int o _ | str o _ | bool o _ | ident o _ | unary o _ _ | binary o _ _ _ | block o _
  | assign o _ _ | declare o _ _ _ | branch o _ _ _ | loop o _ _ | print o _ | scan o
  | field o _ _ _ | scalar o _ _ | array o _ _ | form o _ _ | blank o => o

/-- The number of a node. -/
def id (n : Node) : Nat :=
  n.origin.id

/-- The line on which a node starts. -/
def line (n : Node) : Nat :=
  n.origin.line

/-- The word for a node in messages. -/
def describe : Node → String
  | int _ _ => "integer literal"
  | str _ _ => "string literal"
  | bool _ _ => "boolean literal"
  | ident _ _ => "identifier"
  | unary _ _ _ => "unary operation"
  | binary _ _ _ _ => "binary operation"
  | block _ _ => "block"
  | assign _ _ _ => "assignment"
  | declare _ _ _ _ => "variable declaration"
  | branch _ _ _ _ => "if statement"
  | loop _ _ _ => "for loop"
  | print _ _ => "Println"
  | scan _ => "Scan"
  | field _ _ _ _ => "field declaration"
  | scalar _ _ _ | array _ _ _ => "field property"
  | form _ _ _ => "form declaration"
  | blank _ => "empty line"

/-- The direct parts of a node, in source order. -/
def children : Node → List Node
  | int _ _ | str _ _ | bool _ _ | ident _ _ | scan _ | blank _ => []
  | unary _ _ operand => [operand]
  | binary _ _ left right => [left, right]
  | block _ body | form _ _ body => body
  | assign _ target value => [target, value]
  | declare _ _ _ init => init.toList
  | branch _ condition positive negative => condition :: positive :: negative.toList
  | loop _ condition body => [condition, body]
  | print _ expr => [expr]
  | field _ _ _ properties => properties
  | scalar _ _ value => [value]
  | array _ _ items => items

mutual

/-- A node and all nodes below it, each before its parts. -/
def walk : Node → List Node
  | n@(int _ _) | n@(str _ _) | n@(bool _ _) | n@(ident _ _) | n@(scan _) | n@(blank _) => [n]
  | n@(unary _ _ operand) => n :: operand.walk
  | n@(binary _ _ left right) => n :: (left.walk ++ right.walk)
  | n@(block _ body) | n@(form _ _ body) => n :: walkAll body
  | n@(assign _ target value) => n :: (target.walk ++ value.walk)
  | n@(declare _ _ _ none) => [n]
  | n@(declare _ _ _ (some init)) => n :: init.walk
  | n@(branch _ condition positive none) => n :: (condition.walk ++ positive.walk)
  | n@(branch _ condition positive (some negative)) =>
    n :: (condition.walk ++ positive.walk ++ negative.walk)
  | n@(loop _ condition body) => n :: (condition.walk ++ body.walk)
  | n@(print _ expr) => n :: expr.walk
  | n@(field _ _ _ properties) => n :: walkAll properties
  | n@(scalar _ _ value) => n :: value.walk
  | n@(array _ _ items) => n :: walkAll items

/-- `walk` over neighbours. -/
def walkAll : List Node → List Node
  | [] => []
  | n :: ns => n.walk ++ walkAll ns

end

end Node

/-- How a node's number is written. -/
def idText (id : Nat) : String :=
  s!"#{id}"

end FormScript
