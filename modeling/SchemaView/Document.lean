import SchemaView.Coordinate
import SchemaView.OrderedMap
import SchemaView.Sdl.Grammar
import SchemaView.Sdl.Render

/-!
# Schema documents

A document is a list of definitions. This module reads documents, prints them, and gives the views
on them that everything else uses: the types by name with their extensions, the members of a type,
and the sites, which are the elements that can carry directives, with their coordinates.
-/

namespace SchemaView

open Sdl

/-- A schema document. -/
structure Document where
  definitions : List Definition

/-! ## Directives -/

/-- Whether a directive is among those of an element. -/
def carries (name : Name) (directives : List Directive) : Bool :=
  directives.any fun d => d.name == name

/-- The uses of a directive among those of an element. -/
def usesOf (name : Name) (directives : List Directive) : List Directive :=
  directives.filter fun d => d.name == name

/-- The value of the first argument of a given name. -/
def argumentOf? (name : Name) (d : Directive) : Option Value :=
  (d.arguments.find? fun a => a.name == name).map Argument.value

/-- The value of an argument that is written as a string. -/
def textArgument? (name : Name) (d : Directive) : Option String :=
  match argumentOf? name d with
  | some (.string text) => some text.value
  | _ => none

/-- The value of an argument that is written as an enum value. -/
def wordArgument? (name : Name) (d : Directive) : Option Name :=
  match argumentOf? name d with
  | some (.enum value) => some value
  | _ => none

/-! ## Members and sites -/

/-- A field, an input field or an enum value of a type. -/
structure Member where
  name : Name
  directives : List Directive
  /-- The type of a field or input field. -/
  type? : Option TypeRef
  /-- The arguments of a field. -/
  arguments : List InputValue

/-- A field as a member. -/
def Member.ofField (f : Field) : Member := ⟨f.name, f.directives, some f.type, f.arguments⟩

/-- An input field as a member. -/
def Member.ofInputValue (v : InputValue) : Member := ⟨v.name, v.directives, some v.type, []⟩

/-- An enum value as a member. -/
def Member.ofEnumValue (v : EnumValue) : Member := ⟨v.name, v.directives, none, []⟩

/-- The members that a declaration declares, in order. Scalars and unions have none. -/
def membersOf : TypeBody → List Member
  | .scalar | .union _ => []
  | .object _ fields | .interface _ fields => fields.map Member.ofField
  | .enum values => values.map Member.ofEnumValue
  | .inputObject fields => fields.map Member.ofInputValue

/-- An element that can carry directives, with those that it carries. -/
structure Site where
  coordinate : Coordinate
  directives : List Directive

/-- A member of a type and its arguments. -/
def Member.sites (type : Name) (m : Member) : List Site :=
  ⟨.member type m.name, m.directives⟩
    :: m.arguments.map fun a => ⟨.argument type m.name a.name, a.directives⟩

/-- A declared type, its members and their arguments, in the order of the text. -/
def sitesOf (d : TypeDecl) : List Site :=
  ⟨.type d.name, d.directives⟩ :: (membersOf d.body).flatMap (Member.sites d.name)

/-! ## The types of a document -/

/-- A named type: its definition and its extensions, in the order of the text. -/
structure NamedType where
  definition : TypeDecl
  extensions : List TypeDecl

/-- The definition and the extensions. -/
def NamedType.declarations (t : NamedType) : List TypeDecl := t.definition :: t.extensions

/-- The members declared in the definition and in the extensions. -/
def NamedType.members (t : NamedType) : List Member :=
  t.declarations.flatMap fun d => membersOf d.body

/-- The definition of a type that a definition is, if it is one. -/
def typeDefinition? : Definition → Option TypeDecl
  | .type d => some d
  | _ => none

/-- The extension of a type that a definition is, if it is one. -/
def typeExtension? : Definition → Option TypeDecl
  | .typeExtension d => some d
  | _ => none

/-- The definition of a directive that a definition is, if it is one. -/
def directiveDefinition? : Definition → Option DirectiveDecl
  | .directive d => some d
  | _ => none

/-- The declaration of the schema that a definition is, if it is one. -/
def schemaDeclaration? : Definition → Option SchemaDecl
  | .schema d | .schemaExtension d => some d
  | _ => none

namespace Document

/-- The document that a text writes. -/
def parse (text : String) : Except Fault Document := (Sdl.parse text).map Document.mk

/-- The text of a document. -/
def render (d : Document) : String := Sdl.render d.definitions

/-- The definitions of types by name. A name that is defined again keeps its place and has its
last definition. -/
def definedTypes (d : Document) : OrderedMap Name TypeDecl :=
  OrderedMap.ofList ((d.definitions.filterMap typeDefinition?).map fun t => (t.name, t))

/-- The extensions of types, also of types without a definition. -/
def extensions (d : Document) : List TypeDecl := d.definitions.filterMap typeExtension?

/-- The defined types by name. Extensions of types without a definition are left out. -/
def types (d : Document) : OrderedMap Name NamedType :=
  let extensions := d.extensions
  d.definedTypes.map fun name definition =>
    ⟨definition, extensions.filter fun e => e.name == name⟩

/-- Every declaration of a type: the definitions that count, then all extensions. -/
def typeDeclarations (d : Document) : List TypeDecl :=
  d.definedTypes.values ++ d.extensions

/-- The definitions of directives by name. -/
def definedDirectives (d : Document) : OrderedMap Name DirectiveDecl :=
  OrderedMap.ofList ((d.definitions.filterMap directiveDefinition?).map fun t => (t.name, t))

/-- The definitions and extensions of the schema. -/
def schemaDeclarations (d : Document) : List SchemaDecl :=
  d.definitions.filterMap schemaDeclaration?

/-- The operations in the order in which their roots are listed. -/
def operations : List Operation := [.query, .mutation, .subscription]

/-- The type that is the root of an operation unless the document says otherwise. -/
def defaultRoot : Operation → Name
  | .query => "Query"
  | .mutation => "Mutation"
  | .subscription => "Subscription"

/-- The roots that declarations of the schema name; a later one replaces an earlier one. -/
def declaredRoots (d : Document) : OrderedMap Operation Name :=
  OrderedMap.ofList (d.schemaDeclarations.flatMap SchemaDecl.roots)

/-- The roots of the operations: those that the document names, and if it names none the types
that have the conventional names. -/
def roots (d : Document) : List (Operation × Name) :=
  let declared := d.declaredRoots
  if declared.keys.isEmpty then
    let defined := d.definedTypes
    (operations.map fun o => (o, defaultRoot o)).filter fun root => defined.contains root.2
  else operations.filterMap fun o => (declared.get? o).map fun name => (o, name)

/-- The coordinates of the elements in the definitions of types, in order. -/
def coordinates (d : Document) : List Coordinate :=
  d.definedTypes.values.flatMap fun t => (sitesOf t).map Site.coordinate

/-- Whether an element of a type or of an extension carries a directive. -/
def uses (d : Document) (name : Name) : Bool :=
  d.typeDeclarations.any fun t => (sitesOf t).any fun s => carries name s.directives

/-- The document of some definitions of this one, given by their numbers. Numbers count from zero;
negative ones count from the end. -/
def select? (d : Document) (indexes : List Int) : Option Document :=
  let pick (i : Int) : Option Definition :=
    let j := if i < 0 then i + d.definitions.length else i
    if j < 0 then none else d.definitions[j.toNat]?
  (indexes.mapM pick).map Document.mk

end Document

/-! ## Built-in scalars -/

/-- The scalar types that need no definition. -/
def builtInScalars : List Name := ["String", "Int", "Float", "Boolean", "ID"]

/-- Whether a name is that of a scalar type that needs no definition. -/
def isBuiltIn (name : Name) : Bool := builtInScalars.contains name

end SchemaView
