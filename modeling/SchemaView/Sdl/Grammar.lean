import SchemaView.Sdl.Scan
import SchemaView.Sdl.Tree

/-!
# From tokens to trees

A recursive-descent reader over the lexemes of a text. It looks at the current token, and at the
one behind it only after a description and after `extend`. A fault in the text shows as soon as
the reader steps onto it, not before.

The recursion on nested values, list types and selection sets is on the number of levels that may
still be opened. Repetition is bounded by the number of lexemes left, since each element is at
least one lexeme long.
-/

namespace SchemaView.Sdl

/-- A reader of lexemes. -/
abbrev Reader := StateT Lexemes (Except Fault)

/-- The greatest depth to which values, list types and selection sets may be nested. -/
def maxDepth : Nat := 200

namespace Reader

/-- The current lexeme. -/
def peek : Reader Lexeme := fun s =>
  match s.items, s.ending with
  | lexeme :: _, _ => .ok (lexeme, s)
  | [], .endOfText p => .ok (⟨.endOfText, p⟩, s)
  | [], .broken fault => .error fault

/-- Steps onto the next lexeme and answers the one before. -/
def advance : Reader Lexeme := fun s =>
  match s.items, s.ending with
  | [], .endOfText p => .ok (⟨.endOfText, p⟩, s)
  | [], .broken fault | [_], .broken fault => .error fault
  | lexeme :: _, _ => .ok (lexeme, s.behindFirst)

/-- The lexeme behind the current one. -/
def peekSecond : Reader Lexeme := fun s =>
  match s.items, s.ending with
  | _ :: lexeme :: _, _ => .ok (lexeme, s)
  | _, .endOfText p => .ok (⟨.endOfText, p⟩, s)
  | _, .broken fault => .error fault

/-- Fails at a lexeme. -/
def fail {α : Type} (cause : Lexeme → Cause) (lexeme : Lexeme) : Reader α :=
  throw ⟨cause lexeme, lexeme.position⟩

/-- Fails because nothing can be made of a lexeme. -/
def unexpected {α : Type} (lexeme : Lexeme) : Reader α :=
  fail (fun l => .unexpected l.token) lexeme

/-- Fails because of the current lexeme. -/
def unexpectedHere {α : Type} : Reader α := do unexpected (← peek)

/-- Whether the current token is a given mark. -/
def atMark (mark : Punctuator) : Reader Bool := do
  pure ((← peek).token == .punctuator mark)

/-- Steps over a mark, which must be there. -/
def mark (mark : Punctuator) : Reader Unit := do
  let lexeme ← peek
  if lexeme.token = .punctuator mark then discard advance
  else fail (fun l => .expected (Token.punctuator mark).describe l.token) lexeme

/-- Steps over a mark if it is there, and says whether it was. -/
def optionalMark (m : Punctuator) : Reader Bool := do
  if ← atMark m then
    discard advance
    pure true
  else pure false

/-- Steps over a given word, which must be there. -/
def keyword (word : String) : Reader Unit := do
  let lexeme ← peek
  if lexeme.token = .name word then discard advance
  else fail (fun l => .expected ("'" ++ word ++ "'") l.token) lexeme

/-- Steps over a given word if it is there, and says whether it was. -/
def optionalKeyword (word : String) : Reader Bool := do
  if (← peek).token = .name word then
    discard advance
    pure true
  else pure false

/-- Reads a name. -/
def name : Reader Name := do
  let lexeme ← peek
  match lexeme.token with
  | .name text =>
    discard advance
    pure text
  | _ => fail (fun l => .expected "Name" l.token) lexeme

/-- Reads elements until a mark is there, at most as many as the first argument says. -/
def repeatUntil {α : Type} (close : Punctuator) (element : Reader α) : Nat → Reader (List α)
  | 0 => unexpectedHere
  | n + 1 => do
    if ← optionalMark close then pure []
    else
      let x ← element
      let xs ← repeatUntil close element n
      pure (x :: xs)

/-- A bound for repetitions: more than the lexemes left. -/
def bound : Reader Nat := do pure ((← get).length + 1)

/-- Reads elements between two marks, possibly none. -/
def between {α : Type} (opening close : Punctuator) (element : Reader α) : Reader (List α) := do
  mark opening
  repeatUntil close element (← bound)

/-- Reads elements between two marks, at least one. -/
def someBetween {α : Type} (opening close : Punctuator) (element : Reader α) :
    Reader (List α) := do
  mark opening
  let x ← element
  let xs ← repeatUntil close element (← bound)
  pure (x :: xs)

/-- Reads elements between two marks, at least one, or nothing if the first mark is not there. -/
def optionalBetween {α : Type} (opening close : Punctuator) (element : Reader α) :
    Reader (List α) := do
  if ← atMark opening then someBetween opening close element else pure []

/-- Reads elements with a mark between each two of them, after the first one was read. -/
def moreSeparated {α : Type} (separator : Punctuator) (element : Reader α) :
    Nat → Reader (List α)
  | 0 => unexpectedHere
  | n + 1 => do
    if ← optionalMark separator then
      let x ← element
      let xs ← moreSeparated separator element n
      pure (x :: xs)
    else pure []

/-- Reads at least one element, with a mark between each two and optionally in front. -/
def separated {α : Type} (separator : Punctuator) (element : Reader α) : Reader (List α) := do
  discard (optionalMark separator)
  let x ← element
  let xs ← moreSeparated separator element (← bound)
  pure (x :: xs)

/-! ## Types, values and directives -/

/-- Wraps a type in a non-null mark if the mark follows. -/
def nonNullMark (type : TypeRef) : Reader TypeRef := do
  if ← optionalMark .bang then pure (.nonNull type) else pure type

/-- Reads a type reference in which so many list types may be nested. -/
def typeRef : Nat → Reader TypeRef
  | 0 => do
    if ← optionalMark .bracketL then fail (fun _ => .nestedTooDeeply) (← peek)
    else nonNullMark (.named (← name))
  | d + 1 => do
    if ← optionalMark .bracketL then
      let item ← typeRef d
      mark .bracketR
      nonNullMark (.list item)
    else nonNullMark (.named (← name))

/-- Reads a variable. Where only constants may stand it is a fault. -/
def variableRef (isConst : Bool) : Reader Value := do
  if isConst then
    let dollar ← advance
    match (← peek).token with
    | .name text => fail (fun _ => .variableInConstant text) dollar
    | _ => unexpected dollar
  else
    mark .dollar
    pure (.variable (← name))

/-- The value of a word. -/
def wordValue : String → Value
  | "true" => .boolean true
  | "false" => .boolean false
  | "null" => .null
  | word => .enum word

/-- Reads a value without values inside it. -/
def plainValue (isConst : Bool) : Reader Value := do
  let lexeme ← peek
  match lexeme.token with
  | .punctuator .dollar => variableRef isConst
  | .name word => do discard advance; pure (wordValue word)
  | .int text => do discard advance; pure (.int text)
  | .float text => do discard advance; pure (.float text)
  | .string text => do discard advance; pure (.string ⟨text, false⟩)
  | .blockString text => do discard advance; pure (.string ⟨text, true⟩)
  | _ => unexpected lexeme

/-- Reads a field of an object, given how to read its value. -/
def objectField (fieldValue : Reader Value) : Reader (Name × Value) := do
  let key ← name
  mark .colon
  pure (key, ← fieldValue)

/-- Reads a value in which so many lists and objects may be nested. -/
def value (isConst : Bool) : Nat → Reader Value
  | 0 => do
    let lexeme ← peek
    match lexeme.token with
    | .punctuator .bracketL | .punctuator .braceL => fail (fun _ => .nestedTooDeeply) lexeme
    | _ => plainValue isConst
  | d + 1 => do
    match (← peek).token with
    | .punctuator .bracketL => pure (.list (← between .bracketL .bracketR (value isConst d)))
    | .punctuator .braceL =>
      pure (.object (← between .braceL .braceR (objectField (value isConst d))))
    | _ => plainValue isConst

/-- Reads a named argument. -/
def argument (isConst : Bool) (depth : Nat) : Reader Argument := do
  let key ← name
  mark .colon
  pure ⟨key, ← value isConst depth⟩

/-- Reads arguments in parentheses, if there are any. -/
def arguments (isConst : Bool) (depth : Nat) : Reader (List Argument) :=
  optionalBetween .parenL .parenR (argument isConst depth)

/-- Reads the use of a directive. -/
def directive (isConst : Bool) (depth : Nat) : Reader Directive := do
  mark .at
  let key ← name
  pure ⟨key, ← arguments isConst depth⟩

/-- Reads uses of directives while there are any, at most as many as the last argument says. -/
def directivesUpTo (isConst : Bool) (depth : Nat) : Nat → Reader (List Directive)
  | 0 => unexpectedHere
  | n + 1 => do
    if ← atMark .at then
      let x ← directive isConst depth
      let xs ← directivesUpTo isConst depth n
      pure (x :: xs)
    else pure []

/-- Reads uses of directives. -/
def directives (isConst : Bool) (depth : Nat) : Reader (List Directive) := do
  directivesUpTo isConst depth (← bound)

/-- Reads uses of directives with constant arguments. -/
def constDirectives : Reader (List Directive) := directives true maxDepth

/-- Whether a token is a string. -/
def isText : Token → Bool
  | .string _ | .blockString _ => true
  | _ => false

/-- Reads a description, if there is one. -/
def description : Reader (Option StringLiteral) := do
  match (← peek).token with
  | .string text => do discard advance; pure (some ⟨text, false⟩)
  | .blockString text => do discard advance; pure (some ⟨text, true⟩)
  | _ => pure none

/-- Reads a default value, if there is one. -/
def defaultValue : Reader (Option Value) := do
  if ← optionalMark .equals then pure (some (← value true maxDepth)) else pure none

/-! ## Operations and fragments -/

/-- Reads the name of a fragment, which is any name but `on`. -/
def fragmentName : Reader Name := do
  let lexeme ← peek
  if lexeme.token.value? = some "on" then unexpected lexeme else name

/-- Reads a selection, given how to read the selection set and the arguments inside it. -/
def selection (depth : Nat) (set : Reader (List Selection)) : Reader Selection := do
  if ← optionalMark .spread then
    let conditional ← optionalKeyword "on"
    let isName := match (← peek).token with
      | .name _ => true
      | _ => false
    if !conditional && isName then
      let fragment ← fragmentName
      pure (.spread fragment (← directives false depth))
    else
      let condition ← if conditional then some <$> name else pure none
      let dirs ← directives false depth
      pure (.inline condition dirs (← set))
  else
    let first ← name
    let (responseName, key) ←
      if ← optionalMark .colon then do pure (some first, ← name) else pure (none, first)
    let args ← arguments false depth
    let dirs ← directives false depth
    let selections ← if ← atMark .braceL then set else pure []
    pure (.field responseName key args dirs selections)

/-- Reads a selection set. -/
def selectionSet : Nat → Reader (List Selection)
  | 0 => do fail (fun _ => .nestedTooDeeply) (← peek)
  | d + 1 => someBetween .braceL .braceR (selection d (selectionSet d))

/-- Reads the word for an operation. -/
def operationWord : Reader Operation := do
  let lexeme ← peek
  let word ← name
  match Operation.ofWord? word with
  | some operation => pure operation
  | none => unexpected lexeme

/-- Reads the declaration of a variable. -/
def variableDecl : Reader VariableDecl := do
  let text ← description
  mark .dollar
  let key ← name
  mark .colon
  let type ← typeRef maxDepth
  let default ← defaultValue
  pure ⟨text, key, type, default, ← constDirectives⟩

/-- Reads an operation that starts with its word. -/
def operationDecl : Reader OperationDecl := do
  let text ← description
  let operation ← operationWord
  let key ← match (← peek).token with
    | .name _ => some <$> name
    | _ => pure none
  let variableDecls ← optionalBetween .parenL .parenR variableDecl
  let dirs ← directives false maxDepth
  pure ⟨text, operation, key, variableDecls, dirs, ← selectionSet maxDepth⟩

/-- Reads a query without a word. -/
def shorthandQuery : Reader OperationDecl := do
  pure ⟨none, .query, none, [], [], ← selectionSet maxDepth⟩

/-- Reads a fragment. -/
def fragmentDecl : Reader FragmentDecl := do
  let text ← description
  keyword "fragment"
  let key ← fragmentName
  keyword "on"
  let condition ← name
  let dirs ← directives false maxDepth
  pure ⟨text, key, condition, dirs, ← selectionSet maxDepth⟩

/-! ## Definitions of the type system -/

/-- Reads a root of the schema: an operation and a type. -/
def root : Reader (Operation × Name) := do
  let operation ← operationWord
  mark .colon
  pure (operation, ← name)

/-- Reads the declaration of an argument or input field. -/
def inputValue : Reader InputValue := do
  let text ← description
  let key ← name
  mark .colon
  let type ← typeRef maxDepth
  let default ← defaultValue
  pure ⟨text, key, type, default, ← constDirectives⟩

/-- Reads declarations of arguments in parentheses, if there are any. -/
def argumentDecls : Reader (List InputValue) := optionalBetween .parenL .parenR inputValue

/-- Reads the declaration of a field. -/
def field : Reader Field := do
  let text ← description
  let key ← name
  let args ← argumentDecls
  mark .colon
  let type ← typeRef maxDepth
  pure ⟨text, key, args, type, ← constDirectives⟩

/-- Reads declarations of fields in braces, if there are any. -/
def fields : Reader (List Field) := optionalBetween .braceL .braceR field

/-- Reads the interfaces that a type implements, if it names any. -/
def interfaces : Reader (List Name) := do
  if ← optionalKeyword "implements" then separated .amp name else pure []

/-- Reads the members of a union, if it names any. -/
def unionMembers : Reader (List Name) := do
  if ← optionalMark .equals then separated .pipe name else pure []

/-- Reads the declaration of an enum value. -/
def enumValue : Reader EnumValue := do
  let text ← description
  let lexeme ← peek
  match lexeme.token.value? with
  | some "true" | some "false" | some "null" => fail (fun l => .reservedEnumValue l.token) lexeme
  | _ => pure ()
  let key ← name
  pure ⟨text, key, ← constDirectives⟩

/-- The places where a directive may be declared to stand. -/
def directiveLocations : List Name :=
  ["QUERY", "MUTATION", "SUBSCRIPTION", "FIELD", "FRAGMENT_DEFINITION", "FRAGMENT_SPREAD",
   "INLINE_FRAGMENT", "VARIABLE_DEFINITION", "SCHEMA", "SCALAR", "OBJECT", "FIELD_DEFINITION",
   "ARGUMENT_DEFINITION", "INTERFACE", "UNION", "ENUM", "ENUM_VALUE", "INPUT_OBJECT",
   "INPUT_FIELD_DEFINITION", "DIRECTIVE_DEFINITION"]

/-- Reads a place where a directive may stand. -/
def directiveLocation : Reader Name := do
  let lexeme ← peek
  let place ← name
  if place ∈ directiveLocations then pure place else unexpected lexeme

/-- Reads the definition of a directive from its word on. -/
def directiveDecl (text : Option StringLiteral) : Reader DirectiveDecl := do
  keyword "directive"
  mark .at
  let key ← name
  let args ← argumentDecls
  let repeatable ← optionalKeyword "repeatable"
  keyword "on"
  pure ⟨text, key, args, repeatable, ← separated .pipe directiveLocation⟩

/-- The kind of type that a word defines. -/
def typeKind? : String → Option TypeKind
  | "scalar" => some .scalar
  | "type" => some .object
  | "interface" => some .interface
  | "union" => some .union
  | "enum" => some .enum
  | "input" => some .inputObject
  | _ => none

/-- Reads the declaration of a type of a given kind behind its word. -/
def typeDecl (kind : TypeKind) (text : Option StringLiteral) : Reader TypeDecl := do
  let key ← name
  match kind with
  | .scalar => pure ⟨text, key, ← constDirectives, .scalar⟩
  | .object =>
    let parents ← interfaces
    let dirs ← constDirectives
    pure ⟨text, key, dirs, .object parents (← fields)⟩
  | .interface =>
    let parents ← interfaces
    let dirs ← constDirectives
    pure ⟨text, key, dirs, .interface parents (← fields)⟩
  | .union =>
    let dirs ← constDirectives
    pure ⟨text, key, dirs, .union (← unionMembers)⟩
  | .enum =>
    let dirs ← constDirectives
    pure ⟨text, key, dirs, .enum (← optionalBetween .braceL .braceR enumValue)⟩
  | .inputObject =>
    let dirs ← constDirectives
    pure ⟨text, key, dirs, .inputObject (← optionalBetween .braceL .braceR inputValue)⟩

/-- Whether a body declares nothing. -/
def isEmptyBody : TypeBody → Bool
  | .scalar => true
  | .object parents fields | .interface parents fields => parents.isEmpty && fields.isEmpty
  | .union members => members.isEmpty
  | .enum values => values.isEmpty
  | .inputObject fields => fields.isEmpty

/-- Reads an extension from its first word on. -/
def extension : Reader Definition := do
  let lexeme ← peekSecond
  match lexeme.token with
  | .name "schema" =>
    keyword "extend"
    keyword "schema"
    let dirs ← constDirectives
    let roots ← optionalBetween .braceL .braceR root
    if dirs.isEmpty && roots.isEmpty then unexpectedHere
    else pure (.schemaExtension ⟨none, dirs, roots⟩)
  | .name word =>
    match typeKind? word with
    | some kind =>
      keyword "extend"
      keyword word
      let decl ← typeDecl kind none
      if decl.directives.isEmpty && isEmptyBody decl.body then unexpectedHere
      else pure (.typeExtension decl)
    | none => unexpected lexeme
  | _ => unexpected lexeme

/-- Reads a definition that starts with a given word, possibly behind a description. -/
def wordDefinition (word : String) (lexeme : Lexeme) (isDescribed : Bool) :
    Reader Definition := do
  match word with
  | "schema" =>
    let text ← description
    keyword "schema"
    let dirs ← constDirectives
    pure (.schema ⟨text, dirs, ← someBetween .braceL .braceR root⟩)
  | "directive" => do
    let text ← description
    pure (.directive (← directiveDecl text))
  | "query" | "mutation" | "subscription" => do pure (.operation (← operationDecl))
  | "fragment" => do pure (.fragment (← fragmentDecl))
  | _ =>
    match typeKind? word with
    | some kind =>
      let text ← description
      keyword word
      pure (.type (← typeDecl kind text))
    | none =>
      if isDescribed then fail (fun _ => .strayDescription) (← peek)
      else if word = "extend" then extension
      else unexpected lexeme

/-- Reads a definition. -/
def definition : Reader Definition := do
  let first ← peek
  if first.token = .punctuator .braceL then pure (.operation (← shorthandQuery))
  else
    let isDescribed := isText first.token
    -- Behind a description the next token says what is described.
    let lexeme ← if isDescribed then peekSecond else pure first
    match lexeme.token with
    | .name word => wordDefinition word lexeme isDescribed
    | .punctuator .braceL => fail (fun _ => .describedShorthand) first
    | _ => unexpected lexeme

/-- Reads definitions up to the end of the text, after the first one was read. -/
def moreDefinitions : Nat → Reader (List Definition)
  | 0 => unexpectedHere
  | n + 1 => do
    if (← peek).token = .endOfText then pure []
    else
      let x ← definition
      let xs ← moreDefinitions n
      pure (x :: xs)

/-- Reads a whole document, which holds at least one definition. -/
def definitions : Reader (List Definition) := do
  let x ← definition
  let xs ← moreDefinitions (← bound)
  pure (x :: xs)

end Reader

/-- The definitions that a text writes, or its first fault. -/
def parse (text : String) : Except Fault (List Definition) :=
  (Reader.definitions.run (Lexemes.ofText text)).map Prod.fst

end SchemaView.Sdl
