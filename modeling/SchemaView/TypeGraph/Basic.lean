import SchemaView.Document
import SchemaView.Error

/-!
# The graph of type references

The types of a document refer to each other by name. `Document.mentions` lists, in the order of
the text, everything that declarations say about other types; the first mention of a type that
does not exist is an error (`Document.typeGraph`), and otherwise the mentions make up a directed
graph. An interface also leads to the object types that implement it.

Built-in scalars are never mentioned types. A directive may be given whose carriers are ignored:
ignored fields, input fields and arguments mention nothing, and ignored types are nodes that a
walk does not enter.
-/

namespace SchemaView

open Sdl

/-- Why there is an edge from one type to another. -/
inductive Relation where
  | field | argument | implements | possibleType | member | inputField
deriving DecidableEq, Repr

/-- What a declaration says about types. -/
inductive Mention where
  /-- The declaration extends a type. -/
  | extends (type : Name)
  /-- A type refers to another one. -/
  | refers (source target : Name) (relation : Relation) (referrer : Referrer)
  /-- An object type may stand for an interface. -/
  | standsFor (interface object : Name)
deriving DecidableEq, Repr

/-- Whether an element is ignored because it carries a given directive. -/
def isIgnored (ignore : Option Name) (directives : List Directive) : Bool :=
  match ignore with
  | some name => carries name directives
  | none => false

/-- What a field mentions: its type and those of its arguments. -/
def fieldMentions (ignore : Option Name) (type : Name) (f : Field) : List Mention :=
  if isIgnored ignore f.directives then []
  else
    .refers type f.type.baseName .field (.element (.member type f.name))
      :: (f.arguments.filter fun a => !isIgnored ignore a.directives).map fun a =>
        .refers type a.type.baseName .argument (.element (.argument type f.name a.name))

/-- What an input field mentions: its type. -/
def inputFieldMentions (ignore : Option Name) (type : Name) (f : InputValue) : List Mention :=
  if isIgnored ignore f.directives then []
  else [.refers type f.type.baseName .inputField (.element (.member type f.name))]

/-- What the name of an interface in a declaration mentions. -/
def interfaceMention (type interface : Name) : Mention :=
  .refers type interface .implements (.element (.type type))

/-- What the body of a declaration mentions. -/
def bodyMentions (ignore : Option Name) (type : Name) : TypeBody → List Mention
  | .scalar | .enum _ => []
  | .object interfaces fields =>
    fields.flatMap (fieldMentions ignore type)
      ++ interfaces.flatMap fun i => [interfaceMention type i, .standsFor i type]
  | .interface interfaces fields =>
    fields.flatMap (fieldMentions ignore type) ++ interfaces.map (interfaceMention type)
  | .union members => members.map fun m => .refers type m .member (.element (.type type))
  | .inputObject fields => fields.flatMap (inputFieldMentions ignore type)

/-- What an extension mentions: first the type that it extends. -/
def extensionMentions (ignore : Option Name) (d : TypeDecl) : List Mention :=
  .extends d.name :: bodyMentions ignore d.name d.body

/-- What the declarations of a document mention, definitions before extensions. -/
def Document.mentions (d : Document) (ignore : Option Name) : List Mention :=
  d.definedTypes.values.flatMap (fun t => bodyMentions ignore t.name t.body)
    ++ d.extensions.flatMap (extensionMentions ignore)

/-- The failure of a mention of a type that is not among those defined. -/
def danglingError? (defined : OrderedMap Name TypeDecl) : Mention → Option Error
  | .extends type =>
    if defined.contains type then none else some (.unknownType type (.extension type))
  | .refers _ target _ referrer =>
    if isBuiltIn target || defined.contains target then none
    else some (.unknownType target referrer)
  | .standsFor _ _ => none

/-- A defined type in the graph. -/
structure TypeNode where
  kind : TypeKind
  ignored : Bool
deriving DecidableEq, Repr

/-- A directed graph of types. A node without data is not a defined type and is there only because
of an edge. -/
structure TypeGraph where
  nodes : OrderedMap Name (Option TypeNode)
  edges : OrderedMap (Name × Name) Relation

namespace TypeGraph

/-- Adds an edge, and its ends where they are missing. Of a repeated edge the first relation
stays, unless the new one is that of an interface to a type that stands for it. -/
def addEdge (g : TypeGraph) (source target : Name) (relation : Relation) : TypeGraph where
  nodes := (g.nodes.insertNew source none).insertNew target none
  -- Both ways of writing keep the place of an edge that is already there.
  edges :=
    match relation with
    | .possibleType => g.edges.insert (source, target) relation
    | _ => g.edges.insertNew (source, target) relation

/-- Adds the edge of a mention. Built-in scalars are no targets. -/
def addMention (g : TypeGraph) : Mention → TypeGraph
  | .extends _ => g
  | .refers source target relation _ =>
    if isBuiltIn target then g else g.addEdge source target relation
  | .standsFor interface object => g.addEdge interface object .possibleType

/-- The types to which edges lead from a type, in the order of the edges. -/
def successors (g : TypeGraph) (name : Name) : List Name :=
  g.edges.entries.filterMap fun e => if e.1.1 = name then some e.1.2 else none

/-- The types from which edges lead to a type, in the order of the edges. -/
def predecessors (g : TypeGraph) (name : Name) : List Name :=
  g.edges.entries.filterMap fun e => if e.1.2 = name then some e.1.1 else none

/-- Whether a walk may enter a node: it is in the graph and not ignored. -/
def isOpen (g : TypeGraph) (name : Name) : Bool :=
  match g.nodes.get? name with
  | some (some node) => !node.ignored
  | some none => true
  | none => false

end TypeGraph

/-- The nodes of the defined types. -/
def Document.typeEntries (d : Document) (ignore : Option Name) :
    OrderedMap Name (Option TypeNode) :=
  d.definedTypes.map fun _ t => some ⟨t.body.kind, isIgnored ignore t.directives⟩

/-- The graph of type references, unless a type is mentioned that does not exist. -/
def Document.typeGraph (d : Document) (ignore : Option Name) : Except Error TypeGraph :=
  let defined := d.definedTypes
  let mentions := d.mentions ignore
  match mentions.findSome? (danglingError? defined) with
  | some error => .error error
  | none => .ok (mentions.foldl TypeGraph.addMention ⟨d.typeEntries ignore, .empty⟩)

end SchemaView
