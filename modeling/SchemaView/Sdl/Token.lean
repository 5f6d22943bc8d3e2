/-!
# Tokens of the schema language

A token is a mark of punctuation, a name, a number kept as it is written, or a string with its
decoded value. A lexeme is a token with the position at which it starts.
-/

namespace SchemaView.Sdl

/-- A place in a text; lines and columns count from one. -/
structure Position where
  line : Nat
  column : Nat
deriving DecidableEq, Repr

namespace Position

/-- The first place of every text. -/
def start : Position := ⟨1, 1⟩

/-- The place `n` characters further on the same line. -/
def right (p : Position) (n : Nat) : Position := ⟨p.line, p.column + n⟩

/-- The first place of the next line. -/
def nextLine (p : Position) : Position := ⟨p.line + 1, 1⟩

end Position

/-- The marks of punctuation. -/
inductive Punctuator where
  | bang | dollar | amp | parenL | parenR | spread | colon | equals | at
  | bracketL | bracketR | braceL | pipe | braceR
deriving DecidableEq, Repr

/-- How a mark is written. -/
def Punctuator.symbol : Punctuator → String
  | bang => "!" | dollar => "$" | amp => "&" | parenL => "(" | parenR => ")"
  | spread => "..." | colon => ":" | equals => "=" | «at» => "@"
  | bracketL => "[" | bracketR => "]" | braceL => "\x7b" | pipe => "|" | braceR => "\x7d"

/-- The mark that a single character writes. -/
def Punctuator.ofChar? : Char → Option Punctuator
  | '!' => some bang | '$' => some dollar | '&' => some amp | '(' => some parenL
  | ')' => some parenR | ':' => some colon | '=' => some equals | '@' => some «at»
  | '[' => some bracketL | ']' => some bracketR | '\x7b' => some braceL | '|' => some pipe
  | '\x7d' => some braceR | _ => none

/-- The kinds of tokens. -/
inductive Token where
  | punctuator (mark : Punctuator)
  | name (text : String)
  | int (text : String)
  | float (text : String)
  | string (value : String)
  | blockString (value : String)
  | endOfText
deriving DecidableEq, Repr

/-- The text of a token that is more than its kind. -/
def Token.value? : Token → Option String
  | name t | int t | float t | string t | blockString t => some t
  | punctuator _ | endOfText => none

/-- How messages call a token. -/
def Token.describe : Token → String
  | punctuator mark => "'" ++ mark.symbol ++ "'"
  | name t => "Name '" ++ t ++ "'"
  | int t => "Int '" ++ t ++ "'"
  | float t => "Float '" ++ t ++ "'"
  | string v => "String '" ++ v ++ "'"
  | blockString v => "BlockString '" ++ v ++ "'"
  | endOfText => "<EOF>"

/-- A token and the place where it starts. -/
structure Lexeme where
  token : Token
  position : Position
deriving DecidableEq, Repr

/-- Letters and the underscore start a name. -/
def isNameStart (c : Char) : Bool := c.isAlpha || c == '_'

/-- Digits may stand in a name after its start. -/
def isNameContinue (c : Char) : Bool := c.isAlphanum || c == '_'

end SchemaView.Sdl
