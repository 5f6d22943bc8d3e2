import SchemaView.TypeGraph.Reachable

/-!
# Why a type is reached

A shortest path of references from a root to a type, found by searching from both ends. Each
search grows level by level, the one with the smaller last level first, and the path goes through
the first node that both searches have met. That fixes which of several shortest paths is found.
-/

namespace SchemaView

open Sdl

/-- The nodes that a search has met, last first, each with the node from which it was met. The
start of the search was met from nowhere. -/
abbrev Trail := List (Name × Option Name)

namespace Trail

/-- Whether a node was met. -/
def has (t : Trail) (name : Name) : Bool := t.any fun e => e.1 == name

/-- The nodes on the way back from a node to the start, that node first. Each node was met from
one that was met before it. -/
def wayBack : Trail → Name → List Name
  | [], _ => []
  | (name, origin) :: rest, target =>
    if name == target then
      match origin with
      | some previous => name :: wayBack rest previous
      | none => [name]
    else wayBack rest target

end Trail

namespace TypeGraph

/-- Follows steps in order, each from a met node to another node. A node that was not met before is
added to the trail and to the new level, whose nodes are collected last first. Stops at the first
node that the search from the other end has met. -/
def followSteps (other : Trail) : List (Name × Name) → Trail → List Name →
    Trail × List Name × Option Name
  | [], trail, level => (trail, level, none)
  | (source, target) :: steps, trail, level =>
    let isNew := !trail.has target
    let trail := if isNew then (target, some source) :: trail else trail
    let level := if isNew then target :: level else level
    if other.has target then (trail, level, some target)
    else followSteps other steps trail level

/-- Searches from both ends, given the trails and the last levels, until a node is met from both.
The first argument bounds the number of levels. -/
def meet (g : TypeGraph) : Nat → Trail → List Name → Trail → List Name →
    Option (Trail × Trail × Name)
  | 0, _, _, _, _ => none
  | n + 1, forward, front, backward, back =>
    if front.isEmpty || back.isEmpty then none
    -- The end with fewer nodes in its last level moves; a draw is for the forward search.
    else if front.length ≤ back.length then
      let steps := front.flatMap fun v => (g.successors v).map fun w => (v, w)
      match followSteps backward steps forward [] with
      | (forward, _, some w) => some (forward, backward, w)
      | (forward, level, none) => g.meet n forward level.reverse backward back
    else
      let steps := back.flatMap fun v => (g.predecessors v).map fun w => (v, w)
      match followSteps forward steps backward [] with
      | (backward, _, some w) => some (forward, backward, w)
      | (backward, level, none) => g.meet n forward front backward level.reverse

/-- A shortest path between two nodes. -/
def shortestPath? (g : TypeGraph) (source target : Name) : Option (List Name) :=
  if source = target then some [source]
  else
    match g.meet (2 * g.nodes.size + 2) [(source, none)] [source] [(target, none)] [target] with
    | some (forward, backward, w) =>
      some ((forward.wayBack w).reverse ++ (backward.wayBack w).drop 1)
    | none => none

end TypeGraph

/-- A shortest path of references from each root type to a type. Root types without a path are
left out. -/
def Document.pathsTo (d : Document) (type : Name) :
    Except Error (OrderedMap Name (List Name)) := do
  let g ← d.typeGraph none
  let roots ← d.rootTypes
  if g.nodes.contains type then
    pure (.ofList (roots.filterMap fun root =>
      (g.shortestPath? root type).map fun path => (root, path)))
  else pure .empty

end SchemaView
