import SchemaView.Proofs.BlockValue
import SchemaView.Proofs.NumberText
import SchemaView.Sdl.Grammar

/-!
# Trees that texts can write

Not every tree is that of a text: names have to be names, a non-null mark stands on no other one, a
selection set is not empty, and nothing is nested deeper than readers go. `WellFormed` says this of
each kind of tree. The depth is that of the reader, the number of levels that may still be opened.
-/

namespace SchemaView.Sdl

/-- A block string has a value that block strings can have. -/
def StringLiteral.WellFormed (t : StringLiteral) : Prop :=
  t.isBlock = true → ∃ b : BlockValue, b.text = t.value

/-- A type reference: list types open levels, and there is no mark on a mark. -/
inductive TypeRef.WellFormed : Nat → TypeRef → Prop where
  | named {depth : Nat} {name : Name} (hname : IsNameText name) : WellFormed depth (.named name)
  | list {depth : Nat} {item : TypeRef} (hitem : WellFormed depth item) :
    WellFormed (depth + 1) (.list item)
  | nonNullNamed {depth : Nat} {name : Name} (hname : IsNameText name) :
    WellFormed depth (.nonNull (.named name))
  | nonNullList {depth : Nat} {item : TypeRef} (hitem : WellFormed depth item) :
    WellFormed (depth + 1) (.nonNull (.list item))

/-- A value: lists and objects open levels, and among constants there are no variables. -/
inductive Value.WellFormed (isConst : Bool) : Nat → Value → Prop where
  | variable {depth : Nat} {name : Name} (hconst : isConst = false) (hname : IsNameText name) :
    WellFormed isConst depth (.variable name)
  | int {depth : Nat} {text : String} (m : Numeral) (htoken : m.token = .int text) :
    WellFormed isConst depth (.int text)
  | float {depth : Nat} {text : String} (m : Numeral) (htoken : m.token = .float text) :
    WellFormed isConst depth (.float text)
  | string {depth : Nat} {text : StringLiteral} (htext : text.WellFormed) :
    WellFormed isConst depth (.string text)
  | boolean {depth : Nat} (value : Bool) : WellFormed isConst depth (.boolean value)
  | null {depth : Nat} : WellFormed isConst depth .null
  | enum {depth : Nat} {name : Name} (hname : IsNameText name)
      (hword : Reader.wordValue name = .enum name) : WellFormed isConst depth (.enum name)
  | list {depth : Nat} {items : List Value}
      (hitems : ∀ item ∈ items, WellFormed isConst depth item) :
    WellFormed isConst (depth + 1) (.list items)
  | object {depth : Nat} {fields : List (Name × Value)} (hnames : ∀ f ∈ fields, IsNameText f.1)
      (hvalues : ∀ f ∈ fields, WellFormed isConst depth f.2) :
    WellFormed isConst (depth + 1) (.object fields)

/-- A named argument. -/
structure Argument.WellFormed (isConst : Bool) (depth : Nat) (a : Argument) : Prop where
  name : IsNameText a.name
  value : a.value.WellFormed isConst depth

/-- A use of a directive. -/
structure Directive.WellFormed (isConst : Bool) (depth : Nat) (d : Directive) : Prop where
  name : IsNameText d.name
  arguments : ∀ a ∈ d.arguments, a.WellFormed isConst depth

/-- The directives of a declaration, whose arguments are constants. -/
abbrev ConstDirectives (directives : List Directive) : Prop :=
  ∀ d ∈ directives, d.WellFormed true maxDepth

/-- The declaration of an argument or input field. -/
structure InputValue.WellFormed (v : InputValue) : Prop where
  description : ∀ t ∈ v.description, t.WellFormed
  name : IsNameText v.name
  type : v.type.WellFormed maxDepth
  default : ∀ x ∈ v.default, x.WellFormed true maxDepth
  directives : ConstDirectives v.directives

/-- The declaration of a field. -/
structure Field.WellFormed (f : Field) : Prop where
  description : ∀ t ∈ f.description, t.WellFormed
  name : IsNameText f.name
  arguments : ∀ a ∈ f.arguments, a.WellFormed
  type : f.type.WellFormed maxDepth
  directives : ConstDirectives f.directives

/-- The declaration of an enum value, whose name is no other value. -/
structure EnumValue.WellFormed (v : EnumValue) : Prop where
  description : ∀ t ∈ v.description, t.WellFormed
  name : IsNameText v.name
  not_reserved : v.name ∉ ["true", "false", "null"]
  directives : ConstDirectives v.directives

/-- What a declaration of a type declares. -/
def TypeBody.WellFormed : TypeBody → Prop
  | scalar => True
  | object interfaces fields | interface interfaces fields =>
    (∀ n ∈ interfaces, IsNameText n) ∧ ∀ f ∈ fields, f.WellFormed
  | union members => ∀ n ∈ members, IsNameText n
  | enum values => ∀ v ∈ values, v.WellFormed
  | inputObject fields => ∀ v ∈ fields, v.WellFormed

/-- A declaration of a type. -/
structure TypeDecl.WellFormed (t : TypeDecl) : Prop where
  description : ∀ s ∈ t.description, s.WellFormed
  name : IsNameText t.name
  directives : ConstDirectives t.directives
  body : t.body.WellFormed

/-- A declaration of the schema. -/
structure SchemaDecl.WellFormed (d : SchemaDecl) : Prop where
  description : ∀ t ∈ d.description, t.WellFormed
  directives : ConstDirectives d.directives
  roots : ∀ root ∈ d.roots, IsNameText root.2

/-- The definition of a directive, which may stand somewhere. -/
structure DirectiveDecl.WellFormed (d : DirectiveDecl) : Prop where
  description : ∀ t ∈ d.description, t.WellFormed
  name : IsNameText d.name
  arguments : ∀ a ∈ d.arguments, a.WellFormed
  locations : ∀ l ∈ d.locations, l ∈ Reader.directiveLocations
  located : d.locations ≠ []

/-- A selection: what selects parts of its own opens a level. -/
inductive Selection.WellFormed : Nat → Selection → Prop where
  | leaf {depth : Nat} {responseName : Option Name} {name : Name} {arguments : List Argument}
      {directives : List Directive} (hresponse : ∀ key ∈ responseName, IsNameText key)
      (hname : IsNameText name) (harguments : ∀ a ∈ arguments, a.WellFormed false depth)
      (hdirectives : ∀ d ∈ directives, d.WellFormed false depth) :
    WellFormed depth (.field responseName name arguments directives [])
  | node {depth : Nat} {responseName : Option Name} {name : Name} {arguments : List Argument}
      {directives : List Directive} {selections : List Selection}
      (hresponse : ∀ key ∈ responseName, IsNameText key) (hname : IsNameText name)
      (harguments : ∀ a ∈ arguments, a.WellFormed false (depth + 1))
      (hdirectives : ∀ d ∈ directives, d.WellFormed false (depth + 1))
      (hsome : selections ≠ []) (hselections : ∀ s ∈ selections, WellFormed depth s) :
    WellFormed (depth + 1) (.field responseName name arguments directives selections)
  | spread {depth : Nat} {fragment : Name} {directives : List Directive}
      (hfragment : IsNameText fragment) (hon : fragment ≠ "on")
      (hdirectives : ∀ d ∈ directives, d.WellFormed false depth) :
    WellFormed depth (.spread fragment directives)
  | inline {depth : Nat} {condition : Option Name} {directives : List Directive}
      {selections : List Selection} (hcondition : ∀ type ∈ condition, IsNameText type)
      (hdirectives : ∀ d ∈ directives, d.WellFormed false (depth + 1))
      (hsome : selections ≠ []) (hselections : ∀ s ∈ selections, WellFormed depth s) :
    WellFormed (depth + 1) (.inline condition directives selections)

/-- A selection set, which is not empty and opens a level. -/
inductive SelectionSet : Nat → List Selection → Prop where
  | mk {depth : Nat} {selections : List Selection} (hsome : selections ≠ [])
      (hselections : ∀ s ∈ selections, s.WellFormed depth) : SelectionSet (depth + 1) selections

/-- The declaration of a variable. -/
structure VariableDecl.WellFormed (v : VariableDecl) : Prop where
  description : ∀ t ∈ v.description, t.WellFormed
  name : IsNameText v.name
  type : v.type.WellFormed maxDepth
  default : ∀ x ∈ v.default, x.WellFormed true maxDepth
  directives : ConstDirectives v.directives

/-- An operation. -/
structure OperationDecl.WellFormed (d : OperationDecl) : Prop where
  description : ∀ t ∈ d.description, t.WellFormed
  name : ∀ n ∈ d.name, IsNameText n
  variableDecls : ∀ v ∈ d.variableDecls, v.WellFormed
  directives : ∀ x ∈ d.directives, x.WellFormed false maxDepth
  selections : SelectionSet maxDepth d.selections

/-- A fragment. -/
structure FragmentDecl.WellFormed (d : FragmentDecl) : Prop where
  description : ∀ t ∈ d.description, t.WellFormed
  name : IsNameText d.name
  name_ne_on : d.name ≠ "on"
  typeCondition : IsNameText d.typeCondition
  directives : ∀ x ∈ d.directives, x.WellFormed false maxDepth
  selections : SelectionSet maxDepth d.selections

/-- A definition. A definition of the schema names a root, and an extension adds something. -/
def Definition.WellFormed : Definition → Prop
  | schema d => d.WellFormed ∧ d.roots ≠ []
  | schemaExtension d =>
    d.WellFormed ∧ d.description = none ∧ (d.directives.isEmpty && d.roots.isEmpty) = false
  | type t => t.WellFormed
  | typeExtension t =>
    t.WellFormed ∧ t.description = none ∧
      (t.directives.isEmpty && Reader.isEmptyBody t.body) = false
  | directive d => d.WellFormed
  | operation d => d.WellFormed
  | fragment d => d.WellFormed

end SchemaView.Sdl
