/-!
# Lines of a text

A line ends at LF, at CR, at the pair CRLF, or at the end of the text, and at nothing else: form
feeds and the line separators of Unicode stand inside lines.
-/

namespace SchemaView.Text

/-- LF or CR, which break lines. -/
def isLineBreak (c : Char) : Bool := c == '\n' || c == '\r'

/-- Cuts a text at each break; CRLF is one break. The first argument holds the current line,
last character first. -/
def cutLines (line : List Char) : List Char → List (List Char)
  | [] => [line.reverse]
  | '\r' :: '\n' :: rest => line.reverse :: cutLines [] rest
  | c :: rest =>
    if isLineBreak c then line.reverse :: cutLines [] rest else cutLines (c :: line) rest

/-- The lines of a text. -/
def lines (text : List Char) : List (List Char) := cutLines [] text

/-- Each CRLF and each CR as LF. -/
def normalizeBreaks (text : List Char) : List Char := ['\n'].intercalate (lines text)

end SchemaView.Text
