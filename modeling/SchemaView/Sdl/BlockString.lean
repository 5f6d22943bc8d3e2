import SchemaView.Text.LineBreak

/-!
# Block strings

A block string is written over several lines between triple quotes. Its value does not contain
the indentation that its lines share (`valueOfLines`), and printing chooses between one line and
several (`render`).
-/

namespace SchemaView.Sdl.BlockString

/-- A space or a tab. -/
def isIndent (c : Char) : Bool := c == ' ' || c == '\t'

/-- Whether a line holds nothing but spaces and tabs. -/
def isBlankLine (line : List Char) : Bool := line.all isIndent

/-- How many spaces and tabs a line starts with. -/
def indentOf (line : List Char) : Nat := (line.takeWhile isIndent).length

/-- The indentation that all lines share, blank lines not counted. -/
def commonIndent (lines : List (List Char)) : Nat :=
  (((lines.filter fun line => !isBlankLine line).map indentOf).min?).getD 0

/-- Leaves out blank lines in front and at the end. -/
def trimBlankLines (lines : List (List Char)) : List (List Char) :=
  ((lines.dropWhile isBlankLine).reverse.dropWhile isBlankLine).reverse

/-- The value written by raw lines: the first line stays, the others lose the indentation that
they share, and blank lines at both ends fall away. -/
def valueOfLines : List (List Char) → List Char
  | [] => []
  | first :: others =>
    let indent := commonIndent others
    let dedented := others.map fun line => line.drop indent
    ['\n'].intercalate (trimBlankLines (first :: dedented))

/-- Writes each triple quote with a backslash in front. -/
def escapeQuotes : List Char → List Char
  | '"' :: '"' :: '"' :: rest => '\\' :: '"' :: '"' :: '"' :: escapeQuotes rest
  | c :: rest => c :: escapeQuotes rest
  | [] => []

/-- A block string with a given value. It is laid out over several lines when its value has
several, is long, or ends in a way that would run into the closing quotes. -/
def render (value : String) : String :=
  let chars := value.toList
  let escaped := escapeQuotes chars
  let lines := Text.lines escaped
  let severalLines := lines.length > 1
  -- Indentation that all lines but the first share would be lost behind the opening quotes.
  let allIndented := severalLines && (lines.drop 1).all fun line =>
    match line.head? with
    | none => true
    | some c => isIndent c
  let endsInEscape := ['\\', '"', '"', '"'].isSuffixOf escaped
  let spread := severalLines || chars.length > 70
    || (chars.getLast? == some '"' && !endsInEscape) || chars.getLast? == some '\\'
    || endsInEscape
  -- A single line keeps its own indentation only on the line of the opening quotes.
  let startsIndented := match chars.head? with
    | none => false
    | some c => isIndent c
  let before := if (spread && !(!severalLines && startsIndented)) || allIndented then "\n" else ""
  let after := if spread then "\n" else ""
  "\"\"\"" ++ before ++ String.ofList escaped ++ after ++ "\"\"\""

end SchemaView.Sdl.BlockString
