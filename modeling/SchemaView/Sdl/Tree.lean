/-!
# Syntax trees of the schema language

What a text of the schema language says, without its layout. A definition and an extension of a
type share one shape, `TypeDecl`; what differs from kind to kind of type is its `TypeBody`.
-/

namespace SchemaView.Sdl

abbrev Name := String

/-- A reference to a type: a name, possibly inside lists and non-null marks. -/
inductive TypeRef where
  | named (name : Name)
  | list (item : TypeRef)
  | nonNull (item : TypeRef)
deriving DecidableEq, Repr

/-- The name at the core of a type reference. -/
def TypeRef.baseName : TypeRef → Name
  | named name => name
  | list item | nonNull item => item.baseName

/-- The value of a string and whether it is written as a block string. -/
structure StringLiteral where
  value : String
  isBlock : Bool
deriving DecidableEq, Repr

/-- A value written in the text. Numbers keep the text that writes them. -/
inductive Value where
  | variable (name : Name)
  | int (text : String)
  | float (text : String)
  | string (text : StringLiteral)
  | boolean (value : Bool)
  | null
  | enum (name : Name)
  | list (items : List Value)
  | object (fields : List (Name × Value))
deriving Repr

/-- A value given to a named argument. -/
structure Argument where
  name : Name
  value : Value
deriving Repr

/-- A use of a directive. -/
structure Directive where
  name : Name
  arguments : List Argument
deriving Repr

/-- The declaration of an argument or of an input field. -/
structure InputValue where
  description : Option StringLiteral
  name : Name
  type : TypeRef
  default : Option Value
  directives : List Directive
deriving Repr

/-- The declaration of a field of an object or interface type. -/
structure Field where
  description : Option StringLiteral
  name : Name
  arguments : List InputValue
  type : TypeRef
  directives : List Directive
deriving Repr

/-- The declaration of a value of an enum type. -/
structure EnumValue where
  description : Option StringLiteral
  name : Name
  directives : List Directive
deriving Repr

/-- The kinds of named types. -/
inductive TypeKind where
  | scalar | object | interface | union | enum | inputObject
deriving DecidableEq, Repr

/-- What a declaration of a type declares, by the kind of the type. -/
inductive TypeBody where
  | scalar
  | object (interfaces : List Name) (fields : List Field)
  | interface (interfaces : List Name) (fields : List Field)
  | union (members : List Name)
  | enum (values : List EnumValue)
  | inputObject (fields : List InputValue)
deriving Repr

/-- The kind of type that a body belongs to. -/
def TypeBody.kind : TypeBody → TypeKind
  | scalar => .scalar
  | object _ _ => .object
  | interface _ _ => .interface
  | union _ => .union
  | enum _ => .enum
  | inputObject _ => .inputObject

/-- The definition of a named type, or an extension of one, which has no description. -/
structure TypeDecl where
  description : Option StringLiteral
  name : Name
  directives : List Directive
  body : TypeBody
deriving Repr

/-- The three operations of a schema. -/
inductive Operation where
  | query | mutation | subscription
deriving DecidableEq, Repr

/-- The word for an operation. -/
def Operation.word : Operation → String
  | query => "query"
  | mutation => "mutation"
  | subscription => "subscription"

/-- The operation that a word stands for. -/
def Operation.ofWord? : String → Option Operation
  | "query" => some query
  | "mutation" => some mutation
  | "subscription" => some subscription
  | _ => none

/-- A definition or an extension of the schema itself. -/
structure SchemaDecl where
  description : Option StringLiteral
  directives : List Directive
  /-- The root type of each listed operation. -/
  roots : List (Operation × Name)
deriving Repr

/-- The definition of a directive. -/
structure DirectiveDecl where
  description : Option StringLiteral
  name : Name
  arguments : List InputValue
  repeatable : Bool
  locations : List Name
deriving Repr

/-- What a selection set selects. -/
inductive Selection where
  | field (responseName : Option Name) (name : Name) (arguments : List Argument)
      (directives : List Directive) (selections : List Selection)
  | spread (fragment : Name) (directives : List Directive)
  | inline (typeCondition : Option Name) (directives : List Directive)
      (selections : List Selection)
deriving Repr

/-- The declaration of a variable of an operation. -/
structure VariableDecl where
  description : Option StringLiteral
  name : Name
  type : TypeRef
  default : Option Value
  directives : List Directive
deriving Repr

/-- An operation that clients can run. -/
structure OperationDecl where
  description : Option StringLiteral
  operation : Operation
  name : Option Name
  variableDecls : List VariableDecl
  directives : List Directive
  selections : List Selection
deriving Repr

/-- A named part of a selection. -/
structure FragmentDecl where
  description : Option StringLiteral
  name : Name
  typeCondition : Name
  directives : List Directive
  selections : List Selection
deriving Repr

/-- A top-level element of a document. -/
inductive Definition where
  | schema (decl : SchemaDecl)
  | schemaExtension (decl : SchemaDecl)
  | type (decl : TypeDecl)
  | typeExtension (decl : TypeDecl)
  | directive (decl : DirectiveDecl)
  | operation (decl : OperationDecl)
  | fragment (decl : FragmentDecl)
deriving Repr

end SchemaView.Sdl
