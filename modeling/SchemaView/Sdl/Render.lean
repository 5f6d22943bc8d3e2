import SchemaView.Sdl.BlockString
import SchemaView.Sdl.Tree
import SchemaView.Text.Hex

/-!
# From trees to text

The layout of printed schemas. The parts of a definition stand on one line, separated by single
spaces; members stand in a block, one to a line, indented by two spaces; a description stands on
the lines above what it describes. Absent parts are empty texts and leave no trace.
-/

namespace SchemaView.Sdl

/-- Joins the texts that are not empty. -/
def joinParts (separator : String) (parts : List String) : String :=
  separator.intercalate (parts.filter fun part => !part.isEmpty)

/-- Surrounds a text, unless it is empty. -/
def surround (before text after : String) : String :=
  if text.isEmpty then "" else before ++ text ++ after

/-- Puts two spaces behind every line feed. -/
def indentBreaks : List Char → List Char
  | [] => []
  | c :: rest => if c = '\n' then '\n' :: ' ' :: ' ' :: indentBreaks rest else c :: indentBreaks rest

/-- Indents every line of a text by two spaces. -/
def indent (text : String) : String :=
  surround "  " (String.ofList (indentBreaks text.toList)) ""

/-- Members in braces, one to a line; nothing if there are none. -/
def block (members : List String) : String :=
  surround "\x7b\n" (indent (joinParts "\n" members)) "\n\x7d"

/-- How a character is written in a string. -/
def stringChar (c : Char) : List Char :=
  if c = '"' ∨ c = '\\' then ['\\', c]
  else if c = '\x08' then ['\\', 'b']
  else if c = '\t' then ['\\', 't']
  else if c = '\n' then ['\\', 'n']
  else if c = '\x0c' then ['\\', 'f']
  else if c = '\r' then ['\\', 'r']
  else if c.toNat < 0x20 ∨ (0x7f ≤ c.toNat ∧ c.toNat < 0xa0) then
    '\\' :: 'u' :: Text.hexDigitsUpper 4 c.toNat
  else [c]

/-- A string with a given value. -/
def renderString (value : String) : String :=
  "\"" ++ String.ofList (value.toList.flatMap stringChar) ++ "\""

/-- A string or block string. -/
def StringLiteral.render (t : StringLiteral) : String :=
  if t.isBlock then BlockString.render t.value else renderString t.value

/-- A description with the line break behind it. -/
def renderDescription (description : Option StringLiteral) : String :=
  match description with
  | none => ""
  | some text => text.render ++ "\n"

/-- A type reference. -/
def TypeRef.render : TypeRef → String
  | named name => name
  | list item => "[" ++ item.render ++ "]"
  | nonNull item => item.render ++ "!"

namespace Value

mutual

/-- A value. -/
def render : Value → String
  | .variable name => "$" ++ name
  | .int text => text
  | .float text => text
  | .string text => text.render
  | .boolean value => if value then "true" else "false"
  | .null => "null"
  | .enum name => name
  | .list items => "[" ++ joinParts ", " (renderItems items) ++ "]"
  | .object fields => "\x7b" ++ joinParts ", " (renderFields fields) ++ "\x7d"

/-- The items of a list. -/
def renderItems : List Value → List String
  | [] => []
  | item :: items => render item :: renderItems items

/-- The fields of an object. -/
def renderFields : List (Name × Value) → List String
  | [] => []
  | (name, value) :: fields => (name ++ ": " ++ render value) :: renderFields fields

end

end Value

/-- A named argument. -/
def Argument.render (a : Argument) : String := a.name ++ ": " ++ a.value.render

/-- The use of a directive. -/
def Directive.render (d : Directive) : String :=
  "@" ++ d.name ++ surround "(" (joinParts ", " (d.arguments.map Argument.render)) ")"

/-- Uses of directives, separated by spaces. -/
def renderDirectives (directives : List Directive) : String :=
  joinParts " " (directives.map Directive.render)

/-- Whether one of the texts has several lines. -/
def anyMultiline (parts : List String) : Bool := parts.any fun part => part.toList.contains '\n'

/-- The declaration of an argument or input field. -/
def InputValue.render (v : InputValue) : String :=
  renderDescription v.description ++
    joinParts " "
      [v.name ++ ": " ++ v.type.render,
       match v.default with
       | none => ""
       | some value => "= " ++ value.render,
       renderDirectives v.directives]

/-- Declared arguments in parentheses: on one line, unless one of them has several. -/
def renderArgumentDecls (arguments : List InputValue) : String :=
  let parts := arguments.map InputValue.render
  if anyMultiline parts then surround "(\n" (indent (joinParts "\n" parts)) "\n)"
  else surround "(" (joinParts ", " parts) ")"

/-- The declaration of a field. -/
def Field.render (f : Field) : String :=
  renderDescription f.description ++ f.name ++ renderArgumentDecls f.arguments ++ ": "
    ++ f.type.render ++ surround " " (renderDirectives f.directives) ""

/-- The declaration of an enum value. -/
def EnumValue.render (v : EnumValue) : String :=
  renderDescription v.description ++ joinParts " " [v.name, renderDirectives v.directives]

/-- The word that defines a type of a kind. -/
def TypeKind.word : TypeKind → String
  | scalar => "scalar"
  | object => "type"
  | interface => "interface"
  | union => "union"
  | enum => "enum"
  | inputObject => "input"

/-- The interfaces that a type implements. -/
def renderInterfaces (interfaces : List Name) : String :=
  surround "implements " (joinParts " & " interfaces) ""

/-- The parts of a declaration behind the name, the directives among them. -/
def TypeBody.renderParts (directives : String) : TypeBody → List String
  | scalar => [directives]
  | object interfaces fields | interface interfaces fields =>
    [renderInterfaces interfaces, directives, block (fields.map Field.render)]
  | union members => [directives, surround "= " (joinParts " | " members) ""]
  | enum values => [directives, block (values.map EnumValue.render)]
  | inputObject fields => [directives, block (fields.map InputValue.render)]

/-- A declaration of a type, without its description. -/
def TypeDecl.renderLine (d : TypeDecl) : String :=
  joinParts " "
    (d.body.kind.word :: d.name :: d.body.renderParts (renderDirectives d.directives))

/-- The root of an operation. -/
def renderRoot (root : Operation × Name) : String := root.1.word ++ ": " ++ root.2

/-- A declaration of the schema, without its description. -/
def SchemaDecl.renderLine (d : SchemaDecl) : String :=
  joinParts " " ["schema", renderDirectives d.directives, block (d.roots.map renderRoot)]

/-- The definition of a directive. -/
def DirectiveDecl.render (d : DirectiveDecl) : String :=
  renderDescription d.description ++ "directive @" ++ d.name
    ++ renderArgumentDecls d.arguments ++ (if d.repeatable then " repeatable" else "")
    ++ " on " ++ joinParts " | " d.locations

/-- The arguments of a selected field: on one line, unless that would be longer than eighty
characters. -/
def renderFieldArguments (front : String) (arguments : List String) : String :=
  let line := front ++ surround "(" (joinParts ", " arguments) ")"
  if line.length > 80 then front ++ surround "(\n" (indent (joinParts "\n" arguments)) "\n)"
  else line

namespace Selection

mutual

/-- A selection. -/
def render : Selection → String
  | .field responseName name arguments directives selections =>
    let front := match responseName with
      | none => name
      | some key => key ++ ": " ++ name
    joinParts " "
      [renderFieldArguments front (arguments.map Argument.render),
       renderDirectives directives, block (renderAll selections)]
  | .spread fragment directives =>
    "..." ++ fragment ++ surround " " (renderDirectives directives) ""
  | .inline condition directives selections =>
    joinParts " "
      ["...",
       match condition with
       | none => ""
       | some type => "on " ++ type,
       renderDirectives directives, block (renderAll selections)]

/-- Selections, one by one. -/
def renderAll : List Selection → List String
  | [] => []
  | selection :: selections => render selection :: renderAll selections

end

end Selection

/-- The declaration of a variable. -/
def VariableDecl.render (v : VariableDecl) : String :=
  renderDescription v.description ++ "$" ++ v.name ++ ": " ++ v.type.render
    ++ (match v.default with
        | none => ""
        | some value => " = " ++ value.render)
    ++ surround " " (renderDirectives v.directives) ""

/-- Declared variables in parentheses: on one line, unless one of them has several. -/
def renderVariables (variableDecls : List VariableDecl) : String :=
  let parts := variableDecls.map VariableDecl.render
  if anyMultiline parts then surround "(\n" (joinParts "\n" parts) "\n)"
  else surround "(" (joinParts ", " parts) ")"

/-- An operation. A query without anything in front of its selections needs no word. -/
def OperationDecl.render (d : OperationDecl) : String :=
  let front := renderDescription d.description ++
    joinParts " "
      [d.operation.word, d.name.getD "" ++ renderVariables d.variableDecls,
       renderDirectives d.directives]
  (if front = "query" then "" else front ++ " ") ++ block (Selection.renderAll d.selections)

/-- A fragment. -/
def FragmentDecl.render (d : FragmentDecl) : String :=
  renderDescription d.description ++ "fragment " ++ d.name ++ " on " ++ d.typeCondition ++ " "
    ++ surround "" (renderDirectives d.directives) " " ++ block (Selection.renderAll d.selections)

/-- A definition. -/
def Definition.render : Definition → String
  | schema d => renderDescription d.description ++ d.renderLine
  | schemaExtension d => "extend " ++ d.renderLine
  | type d => renderDescription d.description ++ d.renderLine
  | typeExtension d => "extend " ++ d.renderLine
  | directive d => d.render
  | operation d => d.render
  | fragment d => d.render

/-- A document: its definitions with a blank line between each two. -/
def render (definitions : List Definition) : String :=
  joinParts "\n\n" (definitions.map Definition.render)

end SchemaView.Sdl
