import SchemaView.Document
import SchemaView.Error
import SchemaView.NameSet

/-!
# Ownership

A supergraph is composed of subgraphs. Directives on its types and members say, by graph symbols,
which subgraphs contribute each of them, and an enum gives the name of the subgraph behind each
symbol. `Document.ownership` collects the owners of every type and member. A member without owners
of its own belongs to the owners of its type, and a type to the owners of all its members.
-/

namespace SchemaView

open Sdl

/-- The owning subgraphs of coordinates, which are kept as texts. -/
abbrev Ownership := OrderedMap String NameSet

/-- The enum that declares the graph symbols. -/
def graphEnum : Name := "join__Graph"

/-- What each graph symbol stands for. -/
abbrev GraphSymbols := OrderedMap Name (Option String)

namespace Document

/-- The values of the enum of graph symbols. -/
def graphValues (d : Document) : Except Error (List EnumValue) :=
  match d.definedTypes.get? graphEnum with
  | some ⟨_, _, _, .enum values⟩ => .ok values
  | _ => .error .noSubgraphEnum

end Document

/-- The name of the subgraph that a value of the enum of graph symbols gives. -/
def subgraphOf? (value : EnumValue) : Option String :=
  (usesOf "join__graph" value.directives).findSome? (textArgument? "name")

/-- The graph symbols of a document. -/
def Document.graphSymbols (d : Document) : Except Error GraphSymbols := do
  let values ← d.graphValues
  pure (.ofList (values.map fun v => (v.name, subgraphOf? v)))

/-- The graph symbols that are declared without a subgraph, one for each such declaration. -/
def Document.unnamedGraphs (d : Document) : List Name :=
  match d.graphValues with
  | .ok values => (values.filter fun v => (subgraphOf? v).isNone).map EnumValue.name
  | .error _ => []

/-- The subgraph behind a symbol that is used on an element. -/
def resolveGraph (symbols : GraphSymbols) (element : Coordinate) (symbol : Name) :
    Except Error String :=
  match symbols.get? symbol with
  | some (some subgraph) => .ok subgraph
  | _ => .error (.undeclaredGraph symbol element)

/-- The owners that the uses of a directive on an element name, if they name any. -/
def namedOwners (symbols : GraphSymbols) (directive : Name) (element : Coordinate)
    (directives : List Directive) : Except Error (Option NameSet) :=
  match (usesOf directive directives).filterMap (wordArgument? "graph") with
  | [] => .ok none
  | used => do pure (some (.ofList (← used.mapM (resolveGraph symbols element))))

/-- The directive that names the owners of the members of a type. -/
def memberDirective : TypeBody → Name
  | .enum _ => "join__enumValue"
  | _ => "join__field"

/-- The owners of a member of a type, given the owners of the type. -/
def memberOwners (symbols : GraphSymbols) (d : TypeDecl) (typeOwners : NameSet) (m : Member) :
    Except Error (String × NameSet) := do
  let element := Coordinate.member d.name m.name
  let own ← namedOwners symbols (memberDirective d.body) element m.directives
  pure (element.render, own.getD typeOwners)

/-- The owners of a type and its members, those without owners left out. Of a member that is
declared twice the last declaration counts. -/
def typeOwnership (symbols : GraphSymbols) (d : TypeDecl) :
    Except Error (List (String × NameSet)) := do
  let element := Coordinate.type d.name
  let typeOwners := (← namedOwners symbols "join__type" element d.directives).getD .empty
  -- A member declared twice counts once, so its owners are collected in a map.
  let members := OrderedMap.ofList (← (membersOf d.body).mapM (memberOwners symbols d typeOwners))
  let all := members.values.foldl NameSet.union typeOwners
  pure (((element.render, all) :: members.entries).filter fun e => !e.2.isEmpty)

/-- The owners of the types and members of a supergraph, in the order of the document. -/
def Document.ownership (d : Document) : Except Error Ownership := do
  let symbols ← d.graphSymbols
  let entries ← d.definedTypes.values.mapM (typeOwnership symbols)
  pure (.ofList entries.flatten)

namespace Ownership

/-- All subgraphs that own something. -/
def subgraphs (o : Ownership) : NameSet := o.values.foldl NameSet.union .empty

/-- The coordinates that a subgraph owns, in ascending order. -/
def ownedBy (o : Ownership) (subgraph : String) : List String :=
  (NameSet.ofList (o.filter fun _ owners => decide (subgraph ∈ owners)).keys).names

/-- The owners of an element. An argument that is not listed itself has those of its field. -/
def owners (o : Ownership) (c : Coordinate) : NameSet :=
  match o.get? c.render with
  | some owners => owners
  | none =>
    match c with
    | .argument t m _ => (o.get? (Coordinate.member t m).render).getD .empty
    | .type _ | .member _ _ => .empty

/-- The owners of the element that a text names. A text that is listed need not be a
coordinate. -/
def ownersOfText (o : Ownership) (text : String) : Except Error NameSet :=
  match o.get? text with
  | some owners => .ok owners
  | none => (Coordinate.parse text).map o.owners

end Ownership

end SchemaView
