import SchemaView.Proofs.BuiltInNodes
import SchemaView.Proofs.NodeLookup
import SchemaView.Proofs.TwoWaySearch

/-!
# Paths of references explain what is reached

`Document.reachable` walks from all roots at once and does not enter ignored types;
`Document.pathsTo` searches from every root on its own. Where no directive is given whose carriers
are ignored, all nodes are open, so a walk enters what there is a path to, and the two agree: a root
has a path to the types that a walk from that root enters, and some root has one to the types that
are reached.

## Key results

- `reaches_iff_exists_path`: where all nodes are open, walks follow paths
- `get?_pathsBy_iff`: the path of a root is the one that a search finds
- `mem_keys_pathsBy_iff`: by a search that finds shortest paths, the roots with paths have some
- `explains_of_findsShortest`, `pathsTo_explains`: which roots have paths, and that these are
  shortest
-/

namespace SchemaView

open Sdl (Name)

namespace TypeGraph

variable {g : TypeGraph} {starts : List Name} {target : Name}

/-- Where every end of an edge is open, there is a path from an open start to what is reached. -/
theorem reaches_iff_exists_path (hopen : ∀ s t, t ∈ g.successors s → g.isOpen t = true)
    (hstarts : ∀ n ∈ starts, g.isOpen n = true) :
    g.Reaches starts target ↔ ∃ source ∈ starts, ∃ path, g.IsPath source target path := by
  constructor
  · intro h
    -- Induction on the walk; a step puts one more node in front of the way back to the start.
    induction h with
    | start hmem _ => exact ⟨_, hmem, [_], isPath_iff_way.2 .start⟩
    | step _ hedge _ ih =>
      obtain ⟨source, hsource, hpath⟩ := ih
      obtain ⟨way, hway⟩ := exists_path_iff.1 hpath
      exact ⟨source, hsource, exists_path_iff.2 ⟨_, hway.step hedge⟩⟩
  · intro h
    obtain ⟨source, hsource, hpath⟩ := h
    obtain ⟨way, hway⟩ := exists_path_iff.1 hpath
    induction hway with
    | start => exact .start hsource (hstarts _ hsource)
    | step hrest hstep ih => exact .step (ih (exists_path_iff.2 ⟨_, hrest⟩)) hstep (hopen _ _ hstep)

end TypeGraph

namespace Document

variable {d : Document} {type root : Name} {path : List Name}

/-! ## The graph in which nothing is ignored -/

/-- All ends of edges of the graph of a document are nodes. -/
theorem endsAreNodes_graphOf (d : Document) (ignore : Option Name) :
    (d.graphOf ignore).EndsAreNodes := by
  intro s t ht
  obtain ⟨x, hx, hedge⟩ := (d.mem_successors_graphOf ignore s t).1 ht
  exact ⟨mem_nodes_graphOf_iff.2 (Or.inr ⟨x, hx, (s, t), hedge, Or.inl rfl⟩),
    d.mem_keys_nodes_of_successor ignore ht⟩

/-- Where nothing is ignored, every node is open. -/
theorem isOpen_graphOf_none {n : Name} (h : n ∈ (d.graphOf none).nodes.keys) :
    (d.graphOf none).isOpen n = true := by
  rw [isOpen_graphOf]
  cases hn : d.definedTypes.get? n with
  | some t => exact Or.inl ⟨t, rfl, isIgnored_none _⟩
  | none =>
    have hnot : n ∉ d.definedTypes.keys := (d.definedTypes.get?_eq_none_iff n).1 hn
    exact Or.inr ⟨rfl, (mem_nodes_graphOf_iff.1 h).resolve_left hnot⟩

/-- Where nothing is ignored, what is reached from defined types is what there is a path to. -/
theorem reaches_graphOf_none_iff {starts : List Name}
    (h : ∀ n ∈ starts, n ∈ d.definedTypes.keys) :
    (d.graphOf none).Reaches starts type ↔
      ∃ source ∈ starts, ∃ path, (d.graphOf none).IsPath source type path :=
  TypeGraph.reaches_iff_exists_path
    (fun s t ht => isOpen_graphOf_none (d.endsAreNodes_graphOf none s t ht).2)
    fun n hn => isOpen_graphOf_none (d.mem_keys_nodes_graphOf none (h n hn))

/-! ## Paths from the roots -/

/-- The paths to a type that a search finds from some roots. -/
def pathsBy (find : Name → Name → Option (List Name)) (g : TypeGraph) (roots : List Name)
    (type : Name) : OrderedMap Name (List Name) :=
  if g.nodes.contains type then
    .ofList (roots.filterMap fun root => (find root type).map fun path => (root, path))
  else .empty

/-- The paths to a type from the root types of a document, where a search in the graph is given. -/
def pathsToBy (find : TypeGraph → Name → Name → Option (List Name)) (d : Document) (type : Name) :
    Except Error (OrderedMap Name (List Name)) := do
  let g ← d.typeGraph none
  let roots ← d.rootTypes
  pure (pathsBy (find g) g roots type)

/-- The paths that are told are those of the search from both ends. -/
theorem pathsTo_eq : d.pathsTo type = d.pathsToBy TypeGraph.shortestPath? type := by
  unfold pathsTo pathsToBy
  congr 1
  funext g
  congr 1
  funext roots
  unfold pathsBy
  split
  · rfl
  · rfl

/-- Where there is an answer to what the roots reach, there are paths from them. -/
theorem pathsToBy_eq_ok_iff {find : TypeGraph → Name → Name → Option (List Name)}
    {paths : OrderedMap Name (List Name)} : d.pathsToBy find type = .ok paths ↔ d.Resolves none ∧
      pathsBy (find (d.graphOf none)) (d.graphOf none) (d.roots.map Prod.snd) type = paths := by
  simp only [pathsToBy, bind_eq_ok_iff, typeGraph_eq_ok_iff, rootTypes_eq_ok_iff, pure_eq_ok_iff]
  constructor
  · rintro ⟨_, ⟨hmentioned, rfl⟩, _, ⟨hroots, rfl⟩, h⟩
    exact ⟨⟨hmentioned, hroots⟩, h⟩
  · rintro ⟨hr, h⟩
    exact ⟨_, ⟨hr.mentioned, rfl⟩, _, ⟨hr.roots, rfl⟩, h⟩

section Search

variable {find : Name → Name → Option (List Name)} {g : TypeGraph} {roots : List Name}

/-- A root has the path that a search from it finds. -/
theorem get?_pathsBy_iff : (pathsBy find g roots type).get? root = some path ↔
    type ∈ g.nodes.keys ∧ root ∈ roots ∧ find root type = some path := by
  -- Of two operations with one root type, both searches are the same.
  have hmem : ∀ root path, (root, path) ∈ (roots.filterMap fun root =>
      (find root type).map fun path => (root, path)) ↔
        root ∈ roots ∧ find root type = some path := by
    simp
  unfold pathsBy
  by_cases htype : type ∈ g.nodes.keys
  · rw [if_pos ((OrderedMap.contains_iff _ _).2 htype), OrderedMap.get?_ofList_of_functional, hmem]
    · simp [htype]
    · intro root path other hpath hother
      rw [hmem] at hpath hother
      rw [hpath.2] at hother
      exact Option.some.inj hother.2
  · simp [htype]

/-- If the search finds shortest paths, those of the roots are. -/
theorem isShortestPath_of_pathsBy (hfind : g.FindsShortest find)
    (hroots : ∀ n ∈ roots, n ∈ g.nodes.keys)
    (h : (pathsBy find g roots type).get? root = some path) :
    root ∈ roots ∧ g.IsShortestPath root type path := by
  obtain ⟨htype, hroot, hfound⟩ := get?_pathsBy_iff.1 h
  exact ⟨hroot, hfind.shortest root (hroots root hroot) type htype path hfound⟩

/-- If it finds paths wherever there are some, so do the roots have them. -/
theorem mem_keys_pathsBy_iff (hfind : g.FindsShortest find) (hends : g.EndsAreNodes)
    (hroots : ∀ n ∈ roots, n ∈ g.nodes.keys) :
    root ∈ (pathsBy find g roots type).keys ↔ root ∈ roots ∧ ∃ path, g.IsPath root type path := by
  rw [OrderedMap.mem_keys_iff]
  simp only [get?_pathsBy_iff]
  constructor
  · rintro ⟨path, htype, hroot, hfound⟩
    exact ⟨hroot, (hfind.exists_iff (hroots root hroot) htype).1 ⟨path, hfound⟩⟩
  · rintro ⟨hroot, hpath⟩
    -- A path from a node ends at a node.
    have htype : type ∈ g.nodes.keys := by
      obtain ⟨way, hway⟩ := TypeGraph.exists_path_iff.1 hpath
      exact hway.mem (hroots root hroot) fun s t ht => (hends s t ht).2
    obtain ⟨path, hfound⟩ := (hfind.exists_iff (hroots root hroot) htype).2 hpath
    exact ⟨path, htype, hroot, hfound⟩

end Search

/-! ## Paths and walks -/

/-- Paths explain why a type is reached: a root has one if a walk from that root enters the type,
    each is a shortest path through the graph, and there are some exactly if the type is reached. -/
def Explains (d : Document) (type : Name) (paths : OrderedMap Name (List Name)) : Prop :=
  ∃ g roots reached, d.typeGraph none = .ok g ∧ d.rootTypes = .ok roots ∧
    d.reachable none = .ok reached ∧
    (∀ root ∈ roots, ∃ walked, g.walk [root] = .ok walked ∧ (root ∈ paths.keys ↔ type ∈ walked)) ∧
    (∀ root path, paths.get? root = some path → root ∈ roots ∧ g.IsShortestPath root type path) ∧
    (paths.keys ≠ [] ↔ type ∈ reached)

/-- The paths of a search that finds shortest paths explain why a type is reached. -/
theorem explains_of_findsShortest {find : TypeGraph → Name → Name → Option (List Name)}
    (hfind : (d.graphOf none).FindsShortest (find (d.graphOf none)))
    {paths : OrderedMap Name (List Name)} (h : d.pathsToBy find type = .ok paths) :
    d.Explains type paths := by
  obtain ⟨hr, rfl⟩ := pathsToBy_eq_ok_iff.1 h
  have hnodes : ∀ n ∈ d.roots.map Prod.snd, n ∈ (d.graphOf none).nodes.keys := fun n hn =>
    d.mem_keys_nodes_graphOf none (hr.starts n hn)
  have hkeys : ∀ root, root ∈ (pathsBy (find (d.graphOf none)) (d.graphOf none)
      (d.roots.map Prod.snd) type).keys ↔
        root ∈ d.roots.map Prod.snd ∧ ∃ path, (d.graphOf none).IsPath root type path := fun _ =>
    mem_keys_pathsBy_iff hfind (d.endsAreNodes_graphOf none) hnodes
  have hreached := (d.reachable_eq_ok_iff none _).2 ⟨hr, rfl⟩
  refine ⟨_, _, _, (d.typeGraph_eq_ok_iff none _).2 ⟨hr.mentioned, rfl⟩,
    (d.rootTypes_eq_ok_iff _).2 ⟨hr.roots, rfl⟩, hreached, ?_,
    fun _ _ => isShortestPath_of_pathsBy hfind hnodes, ?_⟩
  · intro root hroot
    have hdefined : ∀ n ∈ [root], n ∈ d.definedTypes.keys := by
      intro n hn
      obtain rfl := List.mem_singleton.1 hn
      exact hr.starts n hroot
    refine ⟨_, d.walk_graphOf none hdefined, ?_⟩
    rw [hkeys, TypeGraph.mem_reachable_iff, reaches_graphOf_none_iff hdefined]
    simp [hroot]
  · rw [TypeGraph.mem_reachable_iff, reaches_graphOf_none_iff hr.starts]
    -- The keys are the roots that have paths.
    constructor
    · intro hne
      obtain ⟨root, hroot⟩ := List.exists_mem_of_ne_nil _ hne
      exact ⟨root, (hkeys root).1 hroot⟩
    · rintro ⟨root, hroot⟩
      exact List.ne_nil_of_mem ((hkeys root).2 hroot)

/-- Whatever search is used that finds shortest paths, its paths explain why a type is reached, and
    so do the paths of the search from both ends. -/
theorem pathsTo_explains (d : Document) (type : Name) :
    (∀ find : TypeGraph → Name → Name → Option (List Name),
      (∀ g, d.typeGraph none = .ok g → g.FindsShortest (find g)) →
        ∀ paths, d.pathsToBy find type = .ok paths → d.Explains type paths) ∧
    ∀ paths, d.pathsTo type = .ok paths → d.Explains type paths := by
  constructor
  · intro find hfind paths h
    obtain ⟨hr, -⟩ := pathsToBy_eq_ok_iff.1 h
    have hgraph := (d.typeGraph_eq_ok_iff none _).2 ⟨hr.mentioned, rfl⟩
    exact explains_of_findsShortest (hfind _ hgraph) h
  · intro paths h
    rw [pathsTo_eq] at h
    exact explains_of_findsShortest
      (TypeGraph.findsShortest_shortestPath? (d.endsAreNodes_graphOf none)) h

end Document

/-! ## A shop with a cycle -/

/-- A shop in which products and brands refer to each other, with one root for two operations and a
    type to which only one of the roots leads. -/
def cyclicShop : Document := ⟨[
  .schema ⟨none, [], [⟨.query, "Query"⟩, ⟨.mutation, "Query"⟩, ⟨.subscription, "Feed"⟩]⟩,
  .type ⟨none, "Query", [], .object [] [⟨none, "product", [], .named "Product", []⟩]⟩,
  .type ⟨none, "Feed", [], .object [] [⟨none, "news", [], .named "News", []⟩]⟩,
  .type ⟨none, "Product", [], .object [] [⟨none, "brand", [], .named "Brand", []⟩]⟩,
  .type ⟨none, "Brand", [], .object [] [⟨none, "products", [], .named "Product", []⟩]⟩,
  .type ⟨none, "News", [], .scalar⟩]⟩

/-- Brands are reached from the root of two operations, by way of products, and not from the other
    root. -/
theorem cyclicShop_explains_brand : ∃ paths, cyclicShop.pathsTo "Brand" = .ok paths ∧
    "Query" ∈ paths.keys ∧ "Feed" ∉ paths.keys ∧
    (∃ g, cyclicShop.typeGraph none = .ok g ∧
      g.IsShortestPath "Query" "Brand" ["Query", "Product", "Brand"]) ∧
    ∃ reached, cyclicShop.reachable none = .ok reached ∧ "Brand" ∈ reached := by
  obtain ⟨paths, hpaths⟩ : ∃ paths, cyclicShop.pathsTo "Brand" = .ok paths := ⟨_, rfl⟩
  have hsearch : ∀ g, cyclicShop.typeGraph none = .ok g → g.FindsShortest g.shortestPath? := by
    intro g hg
    obtain ⟨-, rfl⟩ := (cyclicShop.typeGraph_eq_ok_iff none g).1 hg
    exact TypeGraph.findsShortest_shortestPath? (cyclicShop.endsAreNodes_graphOf none)
  have hby : cyclicShop.pathsToBy TypeGraph.shortestPath? "Brand" = .ok paths := by
    rw [← Document.pathsTo_eq, hpaths]
  obtain ⟨g, roots, reached, hgraph, hroots, hreached, hkeys, hshortest, hsome⟩ :=
    (cyclicShop.pathsTo_explains "Brand").1 TypeGraph.shortestPath? hsearch paths hby
  have hquery : paths.get? "Query" = some ["Query", "Product", "Brand"] := by
    cases hpaths
    rfl
  have hkey : "Query" ∈ paths.keys := (OrderedMap.mem_keys_iff _ _).2 ⟨_, hquery⟩
  have hfeed : "Feed" ∉ paths.keys := by
    cases hpaths
    decide +kernel
  exact ⟨paths, hpaths, hkey, hfeed, ⟨g, hgraph, (hshortest _ _ hquery).2⟩, reached, hreached,
    hsome.1 (List.ne_nil_of_mem hkey)⟩

end SchemaView
