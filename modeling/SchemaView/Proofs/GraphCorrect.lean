import SchemaView.Proofs.Answers
import SchemaView.Proofs.Marking
import SchemaView.Proofs.WalkCorrect

/-!
# The graph of a document and what it reaches

Says of `Document.typeGraph` which edges and open nodes it has, in terms of what the declarations
mention, and of `Document.reachable` when it succeeds and with which set. The graph is folded from
the mentions one at a time; `graphOf` is that fold without the check that all mentioned types exist.

## Key results

- `mem_successors_graphOf` / `isOpen_graphOf`: the edges and the open nodes of the graph
- `reachable_eq_ok_iff`: when there is an answer, and what it is
- `mem_of_reachable_eq_ok`: the answer has the types that the graph reaches from the roots
-/

namespace SchemaView

open Sdl

/-! ## Edges of mentions -/

/-- The edge that a mention stands for. Built-in scalars are no targets of references. -/
def Mention.edge? : Mention → Option (Name × Name)
  | .extends _ => none
  | .refers source target _ _ => if isBuiltIn target then none else some (source, target)
  | .standsFor interface object => some (interface, object)

/-- Whether a node is an end of the edge of a mention. -/
def Mention.Touches (x : Mention) (name : Name) : Prop :=
  ∃ e, x.edge? = some e ∧ (name = e.1 ∨ name = e.2)

namespace TypeGraph

variable (g : TypeGraph)

private theorem mem_keys_edges_addEdge (source target : Name) (relation : Relation)
    (e : Name × Name) : e ∈ (g.addEdge source target relation).edges.keys
      ↔ e = (source, target) ∨ e ∈ g.edges.keys := by
  cases relation <;> simp [addEdge, OrderedMap.mem_keys_insert, OrderedMap.mem_keys_insertNew]

private theorem get?_nodes_addEdge (source target : Name) (relation : Relation) (n : Name) :
    (g.addEdge source target relation).nodes.get? n
      = if g.nodes.get? n = none ∧ (n = source ∨ n = target) then some none
        else g.nodes.get? n := by
  have hkeys : ∀ m, g.nodes.get? m = none ↔ m ∉ g.nodes.keys := g.nodes.get?_eq_none_iff
  simp only [addEdge, OrderedMap.get?_insertNew, OrderedMap.mem_keys_insertNew, hkeys]
  by_cases ht : n = target
  · subst ht
    by_cases hs : n = source <;> by_cases hn : n ∈ g.nodes.keys <;> simp [hs, hn]
  · by_cases hs : n = source
    · subst hs
      simp [ht]
    · simp [ht, hs]

/-- A mention adds its edge, if it stands for one, and nothing else. -/
private theorem addMention_cases (x : Mention) :
    (x.edge? = none ∧ g.addMention x = g) ∨ ∃ source target relation,
      x.edge? = some (source, target) ∧ g.addMention x = g.addEdge source target relation := by
  rcases x with type | ⟨source, target, relation, referrer⟩ | ⟨interface, object⟩
  · exact Or.inl ⟨rfl, rfl⟩
  · by_cases h : isBuiltIn target = true
    · exact Or.inl ⟨by simp [Mention.edge?, h], by simp [addMention, h]⟩
    · exact Or.inr ⟨source, target, relation, by simp [Mention.edge?, h], by simp [addMention, h]⟩
  · exact Or.inr ⟨interface, object, .possibleType, rfl, rfl⟩

/-- The edges after a mention. -/
theorem mem_keys_edges_addMention (x : Mention) (e : Name × Name) :
    e ∈ (g.addMention x).edges.keys ↔ e ∈ g.edges.keys ∨ x.edge? = some e := by
  rcases g.addMention_cases x with ⟨he, ha⟩ | ⟨source, target, relation, he, ha⟩
  · simp [he, ha]
  · rw [ha, mem_keys_edges_addEdge, he, Option.some.injEq, or_comm, eq_comm]

/-- The nodes after a mention: old ones keep their data, new ones have none. -/
theorem get?_nodes_addMention (x : Mention) (n : Name) :
    (g.nodes.get? n = none ∧ x.Touches n ∧ (g.addMention x).nodes.get? n = some none)
      ∨ (¬ (g.nodes.get? n = none ∧ x.Touches n)
        ∧ (g.addMention x).nodes.get? n = g.nodes.get? n) := by
  rcases g.addMention_cases x with ⟨he, ha⟩ | ⟨source, target, relation, he, ha⟩
  · have htouch : ¬ x.Touches n := by simp [Mention.Touches, he]
    exact Or.inr ⟨fun h => htouch h.2, by rw [ha]⟩
  · have htouch : x.Touches n ↔ n = source ∨ n = target := by simp [Mention.Touches, he]
    rw [ha, get?_nodes_addEdge, htouch]
    by_cases h : g.nodes.get? n = none ∧ (n = source ∨ n = target)
    · exact Or.inl ⟨h.1, h.2, if_pos h⟩
    · exact Or.inr ⟨h, if_neg h⟩

/-- The edges after some mentions. -/
theorem mem_keys_edges_foldl (xs : List Mention) (e : Name × Name) :
    e ∈ (xs.foldl addMention g).edges.keys
      ↔ e ∈ g.edges.keys ∨ ∃ x ∈ xs, x.edge? = some e := by
  induction xs generalizing g with
  | nil => simp
  | cons x xs ih =>
    rw [List.foldl_cons, ih, mem_keys_edges_addMention]
    simp only [List.mem_cons, exists_eq_or_imp, or_assoc]

/-- A node after some mentions: an old one with its data, or a new end of an edge. -/
theorem get?_nodes_foldl (xs : List Mention) (n : Name) (node : Option TypeNode) :
    (xs.foldl addMention g).nodes.get? n = some node ↔ g.nodes.get? n = some node
      ∨ (g.nodes.get? n = none ∧ node = none ∧ ∃ x ∈ xs, x.Touches n) := by
  induction xs generalizing g with
  | nil => simp
  | cons x xs ih =>
    rw [List.foldl_cons, ih]
    simp only [List.mem_cons, exists_eq_or_imp]
    -- The first mention adds the node without data, or does nothing to it.
    rcases g.get?_nodes_addMention x n with ⟨hnone, htouch, hnew⟩ | ⟨hnot, hold⟩
    · simp only [hnew, hnone, htouch, Option.some.injEq, true_or]
      simp [eq_comm]
    · rw [hold]
      constructor
      · rintro (h | ⟨hn, hnode, h⟩)
        · exact Or.inl h
        · exact Or.inr ⟨hn, hnode, Or.inr h⟩
      · rintro (h | ⟨hn, hnode, h | h⟩)
        · exact Or.inl h
        · exact absurd ⟨hn, h⟩ hnot
        · exact Or.inr ⟨hn, hnode, h⟩

theorem isOpen_iff (n : Name) : g.isOpen n = true ↔
    ∃ node, g.nodes.get? n = some node ∧ ∀ data, node = some data → data.ignored = false := by
  unfold isOpen
  cases h : g.nodes.get? n with
  | none => simp
  | some node => cases node <;> simp

end TypeGraph

/-! ## The graph of a document -/

namespace Document

variable (d : Document) (ignore : Option Name)

/-- The graph that the mentions of a document make up, whether or not all mentioned types
    exist. -/
def graphOf : TypeGraph :=
  (d.mentions ignore).foldl TypeGraph.addMention ⟨d.typeEntries ignore, .empty⟩

/-- Every mentioned type and every root is there. -/
structure Resolves : Prop where
  mentioned : ∀ x ∈ d.mentions ignore, danglingError? d.definedTypes x = none
  roots : ∀ root ∈ d.roots, root.2 ∈ d.definedTypes.keys

/-- There is a graph if every mentioned type is there, and then it is that of the mentions. -/
theorem typeGraph_eq_ok_iff (g : TypeGraph) : d.typeGraph ignore = .ok g ↔
    (∀ x ∈ d.mentions ignore, danglingError? d.definedTypes x = none) ∧ d.graphOf ignore = g := by
  simp only [typeGraph, graphOf]
  rw [← List.findSome?_eq_none_iff]
  cases h : (d.mentions ignore).findSome? (danglingError? d.definedTypes) <;> simp

/-- An edge leads from a type to another if a declaration mentions it. -/
theorem mem_successors_graphOf (s t : Name) : t ∈ (d.graphOf ignore).successors s ↔
    ∃ x ∈ d.mentions ignore, x.edge? = some (s, t) := by
  rw [TypeGraph.mem_successors, graphOf, TypeGraph.mem_keys_edges_foldl]
  simp

theorem get?_typeEntries (n : Name) : (d.typeEntries ignore).get? n
    = (d.definedTypes.get? n).map fun t => some ⟨t.body.kind, isIgnored ignore t.directives⟩ :=
  OrderedMap.get?_map _ _ n

/-- A defined type is open unless its definition is ignored; another node is open if an edge has
    it as an end. -/
theorem isOpen_graphOf (n : Name) : (d.graphOf ignore).isOpen n = true ↔
    (∃ t, d.definedTypes.get? n = some t ∧ isIgnored ignore t.directives = false)
      ∨ (d.definedTypes.get? n = none ∧ ∃ x ∈ d.mentions ignore, x.Touches n) := by
  rw [TypeGraph.isOpen_iff]
  simp only [graphOf, TypeGraph.get?_nodes_foldl, get?_typeEntries]
  cases d.definedTypes.get? n with
  | none =>
    simp only [Option.map_none, true_and, reduceCtorEq, false_or, false_and, exists_false]
    constructor
    · rintro ⟨_, ⟨-, hx⟩, -⟩
      exact hx
    · exact fun hx => ⟨none, ⟨rfl, hx⟩, by simp⟩
  | some t => simp

/-- Every defined type is a node. -/
theorem mem_keys_nodes_graphOf {n : Name} (h : n ∈ d.definedTypes.keys) :
    n ∈ (d.graphOf ignore).nodes.keys := by
  rw [OrderedMap.mem_keys_iff] at h ⊢
  obtain ⟨t, ht⟩ := h
  exact ⟨_, (TypeGraph.get?_nodes_foldl _ _ _ _).2 (Or.inl (by rw [get?_typeEntries, ht]; rfl))⟩

/-! ## What a document reaches -/

/-- There are root types if each of them is defined. -/
theorem rootTypes_eq_ok_iff (names : List Name) : d.rootTypes = .ok names ↔
    (∀ root ∈ d.roots, root.2 ∈ d.definedTypes.keys) ∧ d.roots.map Prod.snd = names := by
  have herror : ∀ root, rootError? d.definedTypes root = none ↔ root.2 ∈ d.definedTypes.keys := by
    intro root
    rw [← OrderedMap.contains_iff, rootError?]
    cases d.definedTypes.contains root.2 <;> simp
  simp only [rootTypes]
  cases h : d.roots.findSome? (rootError? d.definedTypes) with
  | none =>
    rw [List.findSome?_eq_none_iff] at h
    have hroots : ∀ root ∈ d.roots, root.2 ∈ d.definedTypes.keys :=
      fun root hroot => (herror root).1 (h root hroot)
    simp only [Except.ok.injEq]
    exact ⟨fun heq => ⟨hroots, heq⟩, fun h => h.2⟩
  | some error =>
    obtain ⟨root, hroot, hsome⟩ := List.exists_of_findSome?_eq_some h
    constructor
    · intro h
      cases h
    · intro h
      rw [(herror root).2 (h.1 root hroot)] at hsome
      cases hsome

/-- A walk from defined types has no reason to fail, as these are nodes. -/
theorem walk_graphOf {starts : List Name} (h : ∀ n ∈ starts, n ∈ d.definedTypes.keys) :
    (d.graphOf ignore).walk starts = .ok ((d.graphOf ignore).reachable starts) := by
  have hfind : starts.find? (fun name => !(d.graphOf ignore).nodes.contains name) = none := by
    rw [List.find?_eq_none]
    intro name hname
    have hnode := d.mem_keys_nodes_graphOf ignore (h name hname)
    simpa using hnode
  simp only [TypeGraph.walk, hfind]

/-- Where every root is there, so is every name of a root. -/
theorem Resolves.starts {d : Document} {ignore : Option Name} (h : d.Resolves ignore) :
    ∀ n ∈ d.roots.map Prod.snd, n ∈ d.definedTypes.keys :=
  List.forall_mem_map.2 h.roots

/-- There is an answer to what the roots reach if every mentioned type and every root is there,
    and then it is what the walk enters. -/
theorem reachable_eq_ok_iff (reached : NameSet) : d.reachable ignore = .ok reached ↔
    d.Resolves ignore ∧ (d.graphOf ignore).reachable (d.roots.map Prod.snd) = reached := by
  simp only [reachable, bind_eq_ok_iff, typeGraph_eq_ok_iff, rootTypes_eq_ok_iff]
  constructor
  · rintro ⟨_, ⟨hmentioned, rfl⟩, _, ⟨hroots, rfl⟩, h⟩
    have hr : d.Resolves ignore := ⟨hmentioned, hroots⟩
    rw [walk_graphOf d ignore hr.starts] at h
    exact ⟨hr, Except.ok.inj h⟩
  · rintro ⟨hr, rfl⟩
    exact ⟨_, ⟨hr.mentioned, rfl⟩, _, ⟨hr.roots, rfl⟩, walk_graphOf d ignore hr.starts⟩

/-- A type is reached exactly if the graph reaches it from the roots. -/
theorem mem_of_reachable_eq_ok {reached : NameSet} (h : d.reachable ignore = .ok reached)
    (n : Name) : n ∈ reached ↔ (d.graphOf ignore).Reaches (d.roots.map Prod.snd) n := by
  obtain ⟨-, rfl⟩ := (d.reachable_eq_ok_iff ignore reached).1 h
  exact TypeGraph.mem_reachable_iff _ _ n

end Document

end SchemaView
