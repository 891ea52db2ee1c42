import FormScript.Error
import FormScript.Text.Comment
import FormScript.Token

/-!
# Scanning

A `Scanner` stands between two characters of a text and knows the bytes and lines before it.
`Scanner.next` skips spaces and tabs and reads the longest token that follows, or says why there is
none; it goes on behind the offending text, so a scanner can be asked again after a failure.
`Scanner.readings` is all that a scanner will ever answer, as a list that ends with the end of
input, and `tokenAt` is the same reading with the place given as a byte position instead of a state.
-/

namespace FormScript

/-- The number of bytes that a text takes in UTF-8. -/
def byteLength (cs : List Char) : Nat :=
  cs.foldr (fun c n => c.utf8Size + n) 0

/-- Whether a character separates tokens without being one. -/
def isBlank (c : Char) : Bool :=
  c = ' ' || c = '\t'

/-- Whether a character can start a word. -/
def isWordStart (c : Char) : Bool :=
  c.isAlpha || c = '_'

/-- Whether a character can continue a word. -/
def isWordPart (c : Char) : Bool :=
  c.isAlphanum || c = '_'

/-- The value of a run of decimal digits. -/
def digitsValue (digits : List Char) : Nat :=
  digits.foldl (fun n d => 10 * n + (d.toNat - '0'.toNat)) 0

/-- The integer token of a run of digits, if its value fits in 64 bits. -/
def integerToken (digits : List Char) : Except LexFault Token :=
  if digitsValue digits ≤ Int64.maxValue.toInt then
    .ok (.integer (Int64.ofNat (digitsValue digits)))
  else
    .error (.integerTooLarge (String.ofList digits))

/-- Why no token starts with the given character. -/
def strayCharacter (c : Char) : LexFault :=
  if c = '&' then .incompleteOperator "&&" c
  else if c = '|' then .incompleteOperator "||" c
  else .unexpectedCharacter c

/-- The longest token at the front of the text `c :: cs`, or the reason why there is none, with the
number of characters that it takes up. -/
def munch (c : Char) (cs : List Char) : Except LexFault Token × Nat :=
  if c.isDigit then
    let digits := c :: cs.takeWhile Char.isDigit
    (integerToken digits, digits.length)
  else if isWordStart c then
    let word := c :: cs.takeWhile isWordPart
    (.ok (.ofWord (String.ofList word)), word.length)
  else if c = '"' then
    let content := cs.takeWhile (· != '"')
    if '"' ∈ cs then (.ok (.text (String.ofList content)), content.length + 2)
    else (.error .unterminatedString, content.length + 1)
  else if c = '\n' then (.ok .newline, 1)
  else
    match Mark.atFront? (c :: cs) with
    | some mark => (.ok (.mark mark), mark.text.length)
    | none => (.error (strayCharacter c), 1)

/-- A reading takes up at least one character. -/
theorem munch_pos (c : Char) (cs : List Char) : 0 < (munch c cs).2 := by
  unfold munch
  split
  · simp
  split
  · simp
  split
  · simp only
    split <;> simp
  split
  · simp
  split
  · next mark _ => cases mark <;> decide
  · simp

/-- How many lines a reading that takes up the given characters moves on. The end of a line does,
and so do those between quotes, also if the closing one is missing. -/
def linesRead (found : Except LexFault Token) (characters : List Char) : Nat :=
  match found with
  | .ok .newline => 1
  | .ok (.text _) | .error .unterminatedString => characters.count '\n'
  | _ => 0

/-- A place in a text: what follows, and how many bytes and lines stand before it. -/
structure Scanner where
  rest : List Char
  offset : Nat
  line : Nat
  deriving Repr, Inhabited

/-- What a scanner reads at a place: a token there, or the reason why there is none. -/
abbrev Reading := Except LexError Lexeme

namespace Scanner

/-- The start of a text. -/
def ofText (text : String) : Scanner :=
  ⟨text.toList, 0, 1⟩

/-- The place behind the spaces and tabs that follow. -/
def skipBlanks (s : Scanner) : Scanner :=
  { s with
    rest := s.rest.dropWhile isBlank
    offset := s.offset + byteLength (s.rest.takeWhile isBlank) }

/-- The place behind the next `n` characters, the given number of lines further down. -/
def skip (s : Scanner) (n lines : Nat) : Scanner where
  rest := s.rest.drop n
  offset := s.offset + byteLength (s.rest.take n)
  line := s.line + lines

/-- The token for the end of the text, at this place. -/
def endLexeme (s : Scanner) : Lexeme :=
  ⟨.endOfInput, s.line, s.offset, s.offset⟩

/-- What is read at a place, unless only blanks follow: the reading and the place behind it. -/
def step? (s : Scanner) : Option (Reading × Scanner) :=
  let here := s.skipBlanks
  match here.rest with
  | [] => none
  | c :: cs =>
    let (found, length) := munch c cs
    let after := here.skip length (linesRead found (here.rest.take length))
    let reading := match found with
      | .ok token => .ok ⟨token, here.line, here.offset, after.offset⟩
      | .error fault => .error ⟨here.line, fault⟩
    some (reading, after)

/-- Reads once. At the end of the text the answer is the end of input, for ever. -/
def next (s : Scanner) : Reading × Scanner :=
  s.step?.getD (.ok s.skipBlanks.endLexeme, s.skipBlanks)

/-- Reading shortens what follows. -/
theorem length_rest_of_step? {s after : Scanner} {reading : Reading}
    (h : s.step? = some (reading, after)) : after.rest.length < s.rest.length := by
  unfold step? at h
  simp only at h
  have hdrop : s.skipBlanks.rest.length ≤ s.rest.length := (List.dropWhile_sublist _).length_le
  cases hrest : s.skipBlanks.rest with
  | nil => simp [hrest] at h
  | cons c cs =>
    rw [hrest] at h hdrop
    simp only [Option.some.injEq, Prod.mk.injEq] at h
    obtain ⟨-, rfl⟩ := h
    have hpos := munch_pos c cs
    simp only [skip, hrest, List.length_drop, List.length_cons] at hdrop ⊢
    omega

/-- All readings of a text from a place on. The last one, and only it, is the end of input. -/
def readings (s : Scanner) : List Reading :=
  match _h : s.step? with
  | none => [.ok s.skipBlanks.endLexeme]
  | some (reading, after) => reading :: after.readings
termination_by s.rest.length
decreasing_by exact length_rest_of_step? ‹_›

end Scanner

/-- The tokens of a program, comments aside, up to and with the end of input. -/
def tokenize (source : String) : Except LexError (List Lexeme) :=
  (Scanner.ofText (Text.stripComments source)).readings.mapM id

/-- The text behind its first `n` bytes, if a character ends there. -/
def afterBytes : Nat → List Char → Option (List Char)
  | 0, cs => some cs
  | _ + 1, [] => none
  | n + 1, c :: cs => if c.utf8Size ≤ n + 1 then afterBytes (n + 1 - c.utf8Size) cs else none

/-- The number of newline characters that start within the first `n` bytes of a text. -/
def newlinesBefore : Nat → List Char → Nat
  | 0, _ => 0
  | _ + 1, [] => 0
  | n + 1, c :: cs => (if c = '\n' then 1 else 0) + newlinesBefore (n + 1 - c.utf8Size) cs

/-- A token of a text, in a longer text that has `n` more bytes before it. -/
def Lexeme.behind (n : Nat) (lexeme : Lexeme) : Lexeme :=
  { lexeme with start := n + lexeme.start, stop := n + lexeme.stop }

/-- The single token at a byte position of a text; the next one stands at its `stop`. What follows
the position is scanned as a text of its own. A position outside the text, or inside a character,
holds no token. -/
def tokenAt (text : String) (position : Nat) : Reading :=
  let line := 1 + newlinesBefore position text.toList
  match afterBytes position text.toList with
  | none => .error ⟨line, .unexpectedCharacter '\x00'⟩
  | some rest => (Scanner.mk rest 0 line).next.1.map (.behind position)

end FormScript
