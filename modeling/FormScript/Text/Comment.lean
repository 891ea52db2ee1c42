/-!
# Comments

A comment starts at the first `//` of a line, inside a quoted text too, and ends with the line.
`stripComments` cuts it off and keeps the line breaks, so a token stands on the same line, and in
the same column, of the text with and without comments.
-/

namespace FormScript.Text

/-- The lines of a text: what stands before, between and after its newline characters. -/
def splitLines (cs : List Char) : List (List Char) :=
  cs.foldr step [[]]
where
  /-- Puts a character in front of the lines that follow it. -/
  step (c : Char) : List (List Char) → List (List Char)
    | [] => [[c]]
    | line :: lines => if c = '\n' then [] :: line :: lines else (c :: line) :: lines

/-- The text of the given lines, with a newline character between neighbours. -/
def joinLines (lines : List (List Char)) : List Char :=
  ['\n'].intercalate lines

/-- A line up to its first `//`. -/
def cutComment : List Char → List Char
  | [] => []
  | '/' :: '/' :: _ => []
  | c :: cs => c :: cutComment cs

/-- A text without its comments. -/
def stripComments (text : String) : String :=
  String.ofList (joinLines ((splitLines text.toList).map cutComment))

end FormScript.Text
