import FormScript.FieldKind
import FormScript.Operator
import FormScript.Value

/-!
# Tokens

The tokens of a program: literals, names, the words in `Token.reserved` and the punctuation in
`Mark.all`. The two tables are all that the scanner knows of fixed tokens, and `Token.display` is
how messages quote a token.
-/

namespace FormScript

/-- A word with a fixed meaning that is neither a literal, a type nor a kind of field. -/
inductive Keyword where
  | declare
  | branch
  | otherwise
  | loop
  | print
  | scan
  | form
  deriving DecidableEq, Repr, Inhabited

/-- The text of a keyword. -/
def Keyword.text : Keyword → String
  | declare => "var"
  | branch => "if"
  | otherwise => "else"
  | loop => "for"
  | print => "Println"
  | scan => "Scan"
  | form => "form"

/-- Punctuation: the signs of operators, brackets and separators. -/
inductive Mark where
  | plus
  | minus
  | star
  | slash
  | bang
  | andAnd
  | orOr
  | equalEqual
  | assign
  | greater
  | less
  | openParen
  | closeParen
  | openBrace
  | closeBrace
  | openBracket
  | closeBracket
  | colon
  | comma
  deriving DecidableEq, Repr, Inhabited

namespace Mark

/-- The text of a mark. -/
def text : Mark → String
  | plus => "+"
  | minus => "-"
  | star => "*"
  | slash => "/"
  | bang => "!"
  | andAnd => "&&"
  | orOr => "||"
  | equalEqual => "=="
  | assign => "="
  | greater => ">"
  | less => "<"
  | openParen => "("
  | closeParen => ")"
  | openBrace => "\x7b"
  | closeBrace => "\x7d"
  | openBracket => "["
  | closeBracket => "]"
  | colon => ":"
  | comma => ","

/-- All marks, the longer ones first: of two marks that fit, the longer one is meant. -/
def all : List Mark :=
  [andAnd, orOr, equalEqual, assign, plus, minus, star, slash, bang, greater, less, openParen,
    closeParen, openBrace, closeBrace, openBracket, closeBracket, colon, comma]

/-- The longest mark at the front of a text. -/
def atFront? (cs : List Char) : Option Mark :=
  all.find? fun mark => mark.text.toList.isPrefixOf cs

end Mark

/-- The smallest unit of a program's text. -/
inductive Token where
  | integer (n : Int64)
  | text (content : String)
  | boolean (b : Bool)
  | typeName (type : Ty)
  | fieldKind (kind : FieldKind)
  | keyword (k : Keyword)
  | identifier (name : String)
  | mark (m : Mark)
  /-- The end of a line, which ends a statement. -/
  | newline
  | endOfInput
  deriving DecidableEq, Repr, Inhabited

namespace Token

/-- The words that are not names, each with its token. -/
def reserved : List (String × Token) :=
  [("true", boolean true), ("false", boolean false)]
    ++ [Ty.int, .string, .bool].map (fun type => (type.keyword, typeName type))
    ++ [FieldKind.string, .select, .checkbox].map (fun kind => (kind.keyword, fieldKind kind))
    ++ [Keyword.declare, .branch, .otherwise, .loop, .print, .scan, .form].map
      (fun k => (k.text, keyword k))

/-- The token of a whole word: a reserved word has its own, any other word is a name. -/
def ofWord (word : String) : Token :=
  (reserved.lookup word).getD (identifier word)

/-- How a message quotes a token. -/
def display : Token → String
  | integer n => s!"integer '{intText n}'"
  | text content => s!"string \"{content}\""
  | boolean b => s!"'{boolText b}'"
  | typeName type => s!"type '{type.keyword}'"
  | fieldKind kind => s!"'{kind.keyword}'"
  | keyword k => s!"'{k.text}'"
  | identifier name => s!"identifier '{name}'"
  | mark m => s!"'{m.text}'"
  | newline => "newline"
  | endOfInput => "end of input"

/-- Whether a token starts the declaration of a field. -/
def isFieldKind : Token → Bool
  | fieldKind _ => true
  | _ => false

end Token

/-- A token with its place: the line on which it starts and the bytes that it covers. -/
structure Lexeme where
  token : Token
  line : Nat
  start : Nat
  stop : Nat
  deriving DecidableEq, Repr, Inhabited

end FormScript
