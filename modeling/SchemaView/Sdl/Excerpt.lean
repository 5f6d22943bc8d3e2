import SchemaView.Sdl.Fault
import SchemaView.Text.LineBreak

/-!
# Where a fault is

A fault is shown with the line on which it is, a caret below the place, and the lines around it.
A line of more than 120 characters is cut into pieces of 80 instead, and the caret stands below
the piece that holds the place.
-/

namespace SchemaView.Sdl.Excerpt

/-- Puts spaces in front of a text up to a width. -/
def padLeft (width : Nat) (text : String) : String :=
  "".pushn ' ' (width - text.length) ++ text

/-- Rows with a label each; the labels are aligned at their right ends. -/
def layOut (rows : List (String × String)) : String :=
  let width := (rows.map fun row => row.1.length).foldl max 0
  "\n".intercalate (rows.map fun row =>
    padLeft width row.1 ++ (if row.2.isEmpty then "" else " " ++ row.2))

/-- The pieces of eighty characters of a line; the first argument bounds their number. -/
def pieces : Nat → List Char → List String
  | 0, _ => []
  | n + 1, line =>
    if line.isEmpty then [] else String.ofList (line.take 80) :: pieces n (line.drop 80)

/-- The label of a numbered line. -/
def label (line : Nat) : String := toString line ++ " |"

/-- The rows for a long line. -/
def longRows (p : Position) (line : List Char) : List (String × String) :=
  let all := pieces line.length line
  let before := p.column / 80
  [(label p.line, all.headD "")]
    ++ ((all.drop 1).take before).map (fun piece => ("|", piece))
    ++ [("|", padLeft (p.column % 80) "^")]
    ++ ((all.drop (before + 1)).take 1).map fun piece => ("|", piece)

/-- The rows for a line of ordinary length and the lines around it. -/
def shortRows (p : Position) (lines : List (List Char)) : List (String × String) :=
  let row (n : Nat) : List (String × String) :=
    match lines[n - 1]? with
    | some line => [(label n, String.ofList line)]
    | none => []
  (if p.line ≤ 1 then [] else row (p.line - 1)) ++ row p.line
    ++ [("|", padLeft p.column "^")] ++ row (p.line + 1)

/-- The excerpt of a text around a place. -/
def render (text : String) (p : Position) : String :=
  let lines := SchemaView.Text.lines text.toList
  let line := lines.getD (p.line - 1) []
  "GraphQL request:" ++ toString p.line ++ ":" ++ toString p.column ++ "\n"
    ++ layOut (if line.length > 120 then longRows p line else shortRows p lines)

end SchemaView.Sdl.Excerpt

/-- A fault with its message and the excerpt of the text around it. -/
def SchemaView.Sdl.Fault.report (f : SchemaView.Sdl.Fault) (text : String) : String :=
  f.message ++ "\n\n" ++ SchemaView.Sdl.Excerpt.render text f.position
