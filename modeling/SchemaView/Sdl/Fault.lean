import SchemaView.Sdl.Token
import SchemaView.Text.Hex

/-!
# What can be wrong with a text

A text that cannot be read has one first fault: a cause and the place where it shows. The wording
of each cause is `Cause.message`.
-/

namespace SchemaView.Sdl

/-- The causes for which a text cannot be read. -/
inductive Cause where
  /-- A character with which no token starts. -/
  | unexpectedCharacter (c : Char)
  /-- A single quote, which is not the quote of this language. -/
  | singleQuote
  /-- A string without an end on its line, or a block string without an end. -/
  | unterminatedString
  /-- A backslash before a character that it cannot escape; the text is both. -/
  | badEscape (text : String)
  /-- An escape of a code point that is malformed or names no character. -/
  | badCodePoint (text : String)
  /-- A digit after a leading zero. -/
  | digitAfterZero (c : Char)
  /-- A number that lacks a digit or runs on; `none` is the end of the text. -/
  | digitExpected (c : Option Char)
  /-- A token that nothing can start with or continue with here. -/
  | unexpected (token : Token)
  /-- A token other than the only one that may stand here; `wanted` is its description. -/
  | expected (wanted : String) (found : Token)
  /-- A description in front of a query without a keyword. -/
  | describedShorthand
  /-- A description in front of something that is no definition. -/
  | strayDescription
  /-- A variable where only constants may stand. -/
  | variableInConstant (name : String)
  /-- One of the words that cannot be enum values. -/
  | reservedEnumValue (token : Token)
  /-- More levels of nesting than the reader follows. -/
  | nestedTooDeeply
deriving DecidableEq, Repr

/-- The first fault of a text. -/
structure Fault where
  cause : Cause
  position : Position
deriving DecidableEq, Repr

/-- How messages call a character: itself if it is printable and in ASCII, else its code point. -/
def describeChar (c : Char) : String :=
  if c = '"' then "'\"'"
  else if 0x20 ≤ c.toNat ∧ c.toNat ≤ 0x7e then "'" ++ String.singleton c ++ "'"
  else "U+" ++ String.ofList (Text.hexDigitsUpper 4 c.toNat)

/-- The wording of a cause. -/
def Cause.message : Cause → String
  | unexpectedCharacter c => "Unexpected character: " ++ describeChar c ++ "."
  | singleQuote =>
    "Unexpected single quote character ('), did you mean to use a double quote (\")?"
  | unterminatedString => "Unterminated string."
  | badEscape text => "Invalid character escape sequence: '" ++ text ++ "'."
  | badCodePoint text => "Invalid Unicode escape sequence: '" ++ text ++ "'."
  | digitAfterZero c => "Invalid number, unexpected digit after 0: " ++ describeChar c ++ "."
  | digitExpected none => "Invalid number, expected digit but got: <EOF>."
  | digitExpected (some c) =>
    "Invalid number, expected digit but got: " ++ describeChar c ++ "."
  | unexpected token => "Unexpected " ++ token.describe ++ "."
  | expected wanted found => "Expected " ++ wanted ++ ", found " ++ found.describe ++ "."
  | describedShorthand =>
    "Unexpected description, descriptions are not supported on shorthand queries."
  | strayDescription =>
    "Unexpected description, only GraphQL definitions support descriptions."
  | variableInConstant name => "Unexpected variable '$" ++ name ++ "' in constant value."
  | reservedEnumValue token =>
    token.describe ++ " is reserved and cannot be used for an enum value."
  | nestedTooDeeply => "Document is nested too deeply. Parsing aborted."

/-- The message of a fault. -/
def Fault.message (f : Fault) : String := "Syntax Error: " ++ f.cause.message

end SchemaView.Sdl
