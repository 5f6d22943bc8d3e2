import SchemaView.Contract.Compilation

/-!
# Tables

Ownership and exclusions as tables, with a row for each coordinate and owner or for each hidden
element, and the text of a table with comma-separated fields.
-/

namespace SchemaView

/-- A table. A cell may be missing. -/
structure Table where
  columns : List String
  rows : List (List (Option String))

namespace Ownership

/-- One row for each element and owner, ascending by element and then by owner. -/
def table (o : Ownership) : Except Error Table := do
  let elements ← (NameSet.ofList o.keys).names.mapM Coordinate.parse
  pure {
    columns := ["coordinate", "type_name", "member_name", "subgraph"]
    rows := elements.flatMap fun c =>
      (((o.get? c.render).getD .empty).names).map fun subgraph =>
        [some c.render, some c.typeName, c.memberName?, some subgraph] }

end Ownership

namespace Compilation

/-- The elements of the exclusions in ascending order of their texts, with the reasons. -/
def sortedExclusions (c : Compilation) : List (Coordinate × Reason) :=
  c.excludedTexts.filterMap fun text =>
    c.exclusions.entries.find? fun e => e.1.render == text

/-- One row for each hidden element, in ascending order. -/
def table (c : Compilation) (ownership : Option Ownership) : Table where
  columns := ["contract_name", "coordinate", "type_name", "reason", "tags", "subgraphs"]
  rows := c.sortedExclusions.map fun e =>
    let owners := match ownership with
      | some o => (o.owners e.1).names
      | none => []
    [c.contractName, some e.1.render, some e.1.typeName, some e.2.label,
     some (",".intercalate (c.tags.of e.1).names), some (",".intercalate owners)]

end Compilation

/-- A field of a line: in quotes, with inner quotes doubled, if it would be misread otherwise. -/
def csvField (text : String) : String :=
  let chars := text.toList
  if chars.any fun c => c == ',' || c == '"' || c == '\n' then
    String.ofList ('"' :: (chars.flatMap fun c => if c = '"' then ['"', '"'] else [c]) ++ ['"'])
  else text

/-- A line of fields. -/
def csvLine (fields : List String) : String := ",".intercalate (fields.map csvField) ++ "\n"

/-- The text of a table: a line of column names and a line for each row. -/
def Table.csv (t : Table) : String :=
  String.join (csvLine t.columns :: t.rows.map fun row =>
    csvLine (row.map fun cell => cell.getD ""))

end SchemaView
