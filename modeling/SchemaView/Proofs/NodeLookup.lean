import SchemaView.Proofs.ProtectedTypes

/-!
# Every node that a walk looks up is there

`TypeGraph.isOpen` takes a name that is no node for a closed one. Here a walk is repeated with
lookups that fail for such a name, and shown to have the same answer: it starts at defined types,
which are nodes, and goes on along edges, which end at nodes. So what a document reaches and what
the arguments of its directives use can be found out without a failing lookup.

## Key results

- `mem_keys_nodes_of_successor`: edges of the graph of a document end at nodes
- `walkByName_eq_ok`: the walk with failing lookups has the answer of the walk
- `reachableByName_eq`, `directiveTypesByName_eq`: so have the two computations that walk
-/

namespace SchemaView

open Sdl (Name)

/-- The value of a name that has to have one. -/
def OrderedMap.fetch {β : Type} (m : OrderedMap Name β) (name : Name) : Except Error β :=
  match m.get? name with
  | some value => .ok value
  | none => .error (.noSuchType name)

theorem OrderedMap.fetch_eq_ok {β : Type} {m : OrderedMap Name β} {name : Name} {value : β}
    (h : m.get? name = some value) : m.fetch name = .ok value := by
  rw [fetch, h]

namespace TypeGraph

variable {g : TypeGraph}

/-! ## Walks with failing lookups -/

/-- Whether a walk may enter a node, which has to be in the graph. -/
def mayEnter (g : TypeGraph) (name : Name) : Except Error Bool := do
  match ← g.nodes.fetch name with
  | some node => pure (!node.ignored)
  | none => pure true

/-- The next level of a walk, where every node that was not seen is looked up. -/
def nextLevelByName (g : TypeGraph) (seen level : NameSet) : Except Error NameSet := do
  let unseen := (level.names.flatMap g.successors).filter fun name => !decide (name ∈ seen)
  pure (.ofList (← unseen.filterM g.mayEnter))

/-- Walks on from the last level of what was seen. -/
def walkFromByName (g : TypeGraph) : Nat → NameSet → NameSet → Except Error NameSet
  | 0, seen, _ => .ok seen
  | n + 1, seen, level => do
    let next ← g.nextLevelByName seen level
    if next.isEmpty then pure seen else g.walkFromByName n (seen.union next) next

/-- Everything that a walk from the given types enters, where every node is looked up. -/
def walkByName (g : TypeGraph) (starts : List Name) : Except Error NameSet := do
  let first := NameSet.ofList (← starts.filterM g.mayEnter)
  g.walkFromByName g.nodes.size first first

/-- A node that is there may be entered if it is open. -/
theorem mayEnter_eq_ok {n : Name} (h : n ∈ g.nodes.keys) : g.mayEnter n = .ok (g.isOpen n) := by
  obtain ⟨node, hnode⟩ := (OrderedMap.mem_keys_iff _ _).1 h
  simp only [mayEnter, OrderedMap.fetch_eq_ok hnode, isOpen, hnode]
  cases node <;> rfl

theorem nextLevelByName_eq_ok (hends : ∀ n t, t ∈ g.successors n → t ∈ g.nodes.keys)
    (seen level : NameSet) : g.nextLevelByName seen level = .ok (g.nextLevel seen level) := by
  have hnodes : ∀ t ∈ (level.names.flatMap g.successors).filter fun name => !decide (name ∈ seen),
      g.mayEnter t = .ok (g.isOpen t) := by
    intro t ht
    obtain ⟨n, -, hsucc⟩ := List.mem_flatMap.1 (List.mem_filter.1 ht).1
    exact mayEnter_eq_ok (hends n t hsucc)
  simp only [nextLevelByName, filterM_eq_ok hnodes, List.filter_filter]
  rfl

/-- Where edges end at nodes, a walk from nodes looks up nothing that is not there. -/
theorem walkByName_eq_ok (hends : ∀ n t, t ∈ g.successors n → t ∈ g.nodes.keys)
    {starts : List Name} (hstarts : ∀ n ∈ starts, n ∈ g.nodes.keys) :
    g.walkByName starts = .ok (g.reachable starts) := by
  -- Level by level, whatever was seen before.
  have hwalk : ∀ fuel seen level,
      g.walkFromByName fuel seen level = .ok (g.walkFrom fuel seen level) := by
    intro fuel
    induction fuel with
    | zero => exact fun _ _ => rfl
    | succ fuel ih =>
      intro seen level
      simp only [walkFromByName, walkFrom, nextLevelByName_eq_ok hends, bind, Except.bind]
      split
      · rfl
      · exact ih _ _
  have hfirst : starts.filterM g.mayEnter = .ok (starts.filter g.isOpen) :=
    filterM_eq_ok fun n hn => mayEnter_eq_ok (hstarts n hn)
  simp only [walkByName, hfirst, bind, Except.bind, hwalk]
  rfl

end TypeGraph

namespace Document

variable (d : Document)

/-- Edges of the graph of a document end at nodes: at defined types, or at nodes that mentions
    add. -/
theorem mem_keys_nodes_of_successor (ignore : Option Name) {s t : Name}
    (h : t ∈ (d.graphOf ignore).successors s) : t ∈ (d.graphOf ignore).nodes.keys := by
  obtain ⟨x, hx, hedge⟩ := (mem_successors_graphOf d ignore s t).1 h
  by_cases ht : t ∈ d.definedTypes.keys
  · exact mem_keys_nodes_graphOf d ignore ht
  · have hnone : (d.typeEntries ignore).get? t = none := by
      rw [get?_typeEntries, (d.definedTypes.get?_eq_none_iff t).2 ht, Option.map_none]
    have htouch : x.Touches t := ⟨(s, t), hedge, Or.inr rfl⟩
    rw [OrderedMap.mem_keys_iff]
    exact ⟨none, (TypeGraph.get?_nodes_foldl _ _ _ _).2 (Or.inr ⟨hnone, rfl, x, hx, htouch⟩)⟩

/-- A walk through the graph of a document from defined types. -/
theorem walkByName_graphOf {ignore : Option Name} {starts : List Name}
    (h : ∀ n ∈ starts, n ∈ d.definedTypes.keys) :
    (d.graphOf ignore).walkByName starts = (d.graphOf ignore).walk starts := by
  have hends := fun s t => d.mem_keys_nodes_of_successor ignore (s := s) (t := t)
  have hnodes := fun n hn => d.mem_keys_nodes_graphOf ignore (h n hn)
  rw [TypeGraph.walkByName_eq_ok hends hnodes, walk_graphOf d ignore h]

/-! ## The two computations that walk -/

/-- The types that the root types reach, where every node is looked up. -/
def reachableByName (ignore : Option Name) : Except Error NameSet := do
  let g ← d.typeGraph ignore
  let roots ← d.rootTypes
  g.walkByName roots

/-- The types that arguments of directives use, with everything that these refer to, where every
    node is looked up. -/
def directiveTypesByName : Except Error NameSet :=
  if d.directiveArgumentTypes.isEmpty then .ok .empty
  else do
    let g ← d.typeGraph none
    g.walkByName d.directiveArgumentTypes

theorem reachableByName_eq (ignore : Option Name) :
    d.reachableByName ignore = d.reachable ignore := by
  unfold reachableByName reachable
  cases hgraph : d.typeGraph ignore with
  | error e => rfl
  | ok g =>
    cases hroots : d.rootTypes with
    | error e => rfl
    | ok roots =>
      obtain ⟨-, rfl⟩ := (d.typeGraph_eq_ok_iff ignore g).1 hgraph
      obtain ⟨hdefined, rfl⟩ := (d.rootTypes_eq_ok_iff roots).1 hroots
      exact d.walkByName_graphOf (List.forall_mem_map.2 hdefined)

theorem directiveTypesByName_eq : d.directiveTypesByName = d.directiveTypes := by
  have hdefined : ∀ n ∈ d.directiveArgumentTypes, n ∈ d.definedTypes.keys := fun n hn =>
    (mem_directiveArgumentTypes.1 hn).2
  rw [directiveTypes_eq, directiveTypesByName]
  split
  · rfl
  · cases hgraph : d.typeGraph none with
    | error e => rfl
    | ok g =>
      obtain ⟨-, rfl⟩ := (d.typeGraph_eq_ok_iff none g).1 hgraph
      exact d.walkByName_graphOf hdefined

end Document

end SchemaView
