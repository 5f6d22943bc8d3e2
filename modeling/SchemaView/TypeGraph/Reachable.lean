import SchemaView.NameSet
import SchemaView.TypeGraph.Basic

/-!
# What the roots reach

A walk through the graph of type references that starts at some types and enters every node that
is not ignored, level by level. What it does not enter from the roots of the operations is not
part of the public view of a schema.
-/

namespace SchemaView

open Sdl

namespace TypeGraph

/-- The nodes that edges lead to from a level and that a walk may enter for the first time. -/
def nextLevel (g : TypeGraph) (seen level : NameSet) : NameSet :=
  .ofList ((level.names.flatMap g.successors).filter fun name =>
    g.isOpen name && !decide (name ∈ seen))

/-- Walks on from the last level of what was seen, until there is no next level. The first
argument bounds the number of levels. -/
def walkFrom (g : TypeGraph) : Nat → NameSet → NameSet → NameSet
  | 0, seen, _ => seen
  | n + 1, seen, level =>
    let next := g.nextLevel seen level
    if next.isEmpty then seen else g.walkFrom n (seen.union next) next

/-- Everything that a walk from the given types enters, those types included unless they are
ignored. No walk has more levels than there are nodes. -/
def reachable (g : TypeGraph) (starts : List Name) : NameSet :=
  let first := NameSet.ofList (starts.filter g.isOpen)
  g.walkFrom g.nodes.size first first

/-- What a walk enters from types that all have to be in the graph. -/
def walk (g : TypeGraph) (starts : List Name) : Except Error NameSet :=
  match starts.find? fun name => !g.nodes.contains name with
  | some name => .error (.noSuchType name)
  | none => .ok (g.reachable starts)

end TypeGraph

namespace Document

/-- The failure of a root that is not among the defined types. -/
def rootError? (defined : OrderedMap Name TypeDecl) (root : Operation × Name) : Option Error :=
  if defined.contains root.2 then none else some (.unknownType root.2 (.root root.1))

/-- The root types of the operations, all of which have to be defined. -/
def rootTypes (d : Document) : Except Error (List Name) :=
  let defined := d.definedTypes
  match d.roots.findSome? (rootError? defined) with
  | some error => .error error
  | none => .ok (d.roots.map Prod.snd)

/-- The types that the root types reach. -/
def reachable (d : Document) (ignore : Option Name) : Except Error NameSet := do
  let g ← d.typeGraph ignore
  let roots ← d.rootTypes
  g.walk roots

/-- The defined types that the root types do not reach, in the order of the document. -/
def unreachable (d : Document) (ignore : Option Name) : Except Error (List Name) := do
  let reached ← d.reachable ignore
  pure (d.definedTypes.keys.filter fun name => !decide (name ∈ reached))

end Document

end SchemaView
