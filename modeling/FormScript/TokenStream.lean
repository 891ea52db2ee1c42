import FormScript.Node
import FormScript.Scanner

/-!
# The parser's view of a text

A `TokenStream` is one token of lookahead in front of the readings still to come, together with the
number for the next node and the current nesting depth. `Parse` is a computation on a stream that
can fail; a failed one still leaves a stream behind, at the place where it gave up and with the
levels it had entered. A reading that is no token fails `advance` and is gone, but the lookahead
stays.
-/

namespace FormScript

/-- A text on its way through the parser. -/
structure TokenStream where
  /-- The lookahead. -/
  current : Lexeme
  /-- What will be read after it. -/
  ahead : List Reading
  /-- The number that the next node gets. -/
  nextId : Nat
  /-- How many nested constructs are open. -/
  depth : Nat
  deriving Repr

/-- The deepest nesting of parentheses, operators and blocks that the grammar admits. -/
def maxDepth : Nat := 128

/-- A step of the parser. -/
abbrev Parse := EStateM ParseError TokenStream

namespace TokenStream

/-- The stream over the given readings, unless the first one is no token. -/
def ofReadings : List Reading → Except ParseError TokenStream
  | [] => .ok ⟨default, [], 0, 0⟩
  | .error e :: _ => .error (.lexical e)
  | .ok lexeme :: ahead => .ok ⟨lexeme, ahead, 0, 0⟩

/-- The stream over a text without comments. -/
def ofText (text : String) : Except ParseError TokenStream :=
  ofReadings (Scanner.ofText text).readings

end TokenStream

namespace Parse

/-- The lookahead with its place. -/
def peek : Parse Lexeme := do
  return (← get).current

/-- Whether the lookahead is the given token. -/
def check (token : Token) : Parse Bool := do
  return (← peek).token = token

/-- Consumes the lookahead. The end of input is never used up. -/
def advance : Parse Lexeme := fun s =>
  match s.ahead with
  | [] => .ok s.current s
  | .ok lexeme :: ahead => .ok s.current { s with current := lexeme, ahead }
  | .error e :: ahead => .error (.lexical e) { s with ahead }

/-- Fails with a fault of grammar at the given line. -/
def fail {α : Type} (line : Nat) (fault : SyntaxFault) : Parse α :=
  throw (.grammar ⟨line, fault⟩)

/-- The fault of a lookahead that does not fit. -/
def unexpectedFault (found : Token) (expected construct : String) : SyntaxFault :=
  if found = .endOfInput then .unexpectedEnd construct
  else .unexpectedToken expected found.display construct

/-- Fails because the lookahead does not fit. -/
def unexpected {α : Type} (expected construct : String) : Parse α := do
  let here ← peek
  fail here.line (unexpectedFault here.token expected construct)

/-- Consumes the lookahead if it is the given token, and says whether it was. -/
def eat (token : Token) : Parse Bool := do
  if ← check token then
    let _ ← advance
    return true
  else
    return false

/-- Consumes the given token or fails. -/
def expect (token : Token) (construct : String) : Parse Lexeme := do
  if ← check token then advance else unexpected token.display construct

/-- Consumes a mark or fails. -/
def expectMark (mark : Mark) (construct : String) : Parse Unit := do
  let _ ← expect (.mark mark) construct

/-- Consumes the end of a line or fails. -/
def expectNewline (construct : String) : Parse Unit := do
  let _ ← expect .newline construct

/-- Consumes a keyword or fails. -/
def expectKeyword (keyword : Keyword) (construct : String) : Parse Unit := do
  let _ ← expect (.keyword keyword) construct

/-- Consumes a name or fails. -/
def expectIdentifier (construct : String) : Parse String := do
  match (← peek).token with
  | .identifier name =>
    let _ ← advance
    return name
  | _ => unexpected "an identifier" construct

/-- Fails because one more level would nest too deep. -/
def tooDeep {α : Type} (construct : String) : Parse α := do
  fail (← peek).line (.nestingTooDeep construct maxDepth)

/-- Opens a nested construct. -/
def descend : Parse Unit :=
  modify fun s => { s with depth := s.depth + 1 }

/-- Closes nested constructs. -/
def leave (levels : Nat) : Parse Unit :=
  modify fun s => { s with depth := s.depth - levels }

/-- Opens a nested construct or fails at the deepest level. -/
def enter (construct : String) : Parse Unit := do
  if (← get).depth < maxDepth then descend else tooDeep construct

/-- How many constructs can still be opened. -/
def levelsLeft : Parse Nat := do
  return maxDepth - (← get).depth

/-- A new node's origin at the given line. -/
def fresh (line : Nat) : Parse Origin :=
  modifyGet fun s => (⟨s.nextId, line⟩, { s with nextId := s.nextId + 1 })

/-- Consumes the line ends in front of a stream that starts with the given lookahead and
readings. -/
def skipNewlinesFrom (s : TokenStream) :
    Lexeme → List Reading → EStateM.Result ParseError TokenStream Unit
  | current, [] => .ok () { s with current, ahead := [] }
  | current, reading :: ahead =>
    if current.token = .newline then
      match reading with
      | .ok lexeme => skipNewlinesFrom s lexeme ahead
      | .error e => .error (.lexical e) { s with current, ahead }
    else .ok () { s with current, ahead := reading :: ahead }

/-- Consumes all line ends in front. -/
def skipNewlines : Parse Unit := fun s =>
  skipNewlinesFrom s s.current s.ahead

/-- Collects items until `item?` answers that none follows. Each item uses up at least one of the
readings `along` the way; if they end first, so does the text, and the loop fails in `construct`. -/
def manyAlong {α : Type} (construct : String) (item? : Parse (Option α)) (along : List Reading) :
    Parse (List α) := do
  match ← item? with
  | none => return []
  | some item =>
    match along with
    | [] => fail (← peek).line (.unexpectedEnd construct)
    | _ :: along =>
      let items ← manyAlong construct item? along
      return item :: items

/-- Collects items until `item?` answers that none follows. -/
def many {α : Type} (construct : String) (item? : Parse (Option α)) : Parse (List α) := do
  manyAlong construct item? (← get).ahead

/-- Threads a state through `step?` until it answers that nothing follows, as `manyAlong` does. -/
def foldAlong {σ : Type} (construct : String) (step? : σ → Parse (Option σ)) (along : List Reading)
    (state : σ) : Parse σ := do
  match ← step? state with
  | none => return state
  | some state =>
    match along with
    | [] => fail (← peek).line (.unexpectedEnd construct)
    | _ :: along => foldAlong construct step? along state

/-- Threads a state through `step?` until it answers that nothing follows. -/
def foldMany {σ : Type} (construct : String) (step? : σ → Parse (Option σ))
    (state : σ) : Parse σ := do
  foldAlong construct step? (← get).ahead state

end Parse

end FormScript
