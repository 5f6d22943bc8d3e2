import SchemaView.Text.Hex
import SchemaView.Text.Printable

/-!
# Quoted text in messages

Messages and summaries show texts in single quotes, or in double quotes when that avoids an
escape. Lists are shown in brackets and counts in braces.
-/

namespace SchemaView.Text

/-- How a character is shown between the given quotes. -/
def quotedChar (quote c : Char) : List Char :=
  if c = '\\' ∨ c = quote then ['\\', c]
  else if c = '\t' then ['\\', 't']
  else if c = '\n' then ['\\', 'n']
  else if c = '\r' then ['\\', 'r']
  else if isPrintable c then [c]
  else if c.toNat < 0x100 then '\\' :: 'x' :: hexDigits 2 c.toNat
  else if c.toNat < 0x10000 then '\\' :: 'u' :: hexDigits 4 c.toNat
  else '\\' :: 'U' :: hexDigits 8 c.toNat

/-- Single quotes, unless the text holds one of those and no double quote. -/
def quoteFor (text : String) : Char :=
  if text.toList.contains '\'' && !text.toList.contains '"' then '"' else '\''

/-- A text between quotes. -/
def quoted (text : String) : String :=
  let quote := quoteFor text
  String.ofList ([quote] ++ text.toList.flatMap (quotedChar quote) ++ [quote])

/-- Texts between quotes, in brackets. -/
def quotedList (texts : List String) : String :=
  "[" ++ ", ".intercalate (texts.map quoted) ++ "]"

/-- Texts between quotes with their counts, in braces. -/
def quotedCounts (counts : List (String × Nat)) : String :=
  "\x7b" ++ ", ".intercalate (counts.map fun e => quoted e.1 ++ ": " ++ toString e.2) ++ "\x7d"

end SchemaView.Text
