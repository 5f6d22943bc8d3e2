import SchemaView.Config
import SchemaView.Proofs.CascadeCorrect
import SchemaView.Proofs.DeclaredReach

/-!
# Built-in scalars in the graph

References to built-in scalars are dropped, but nothing keeps such a name out of the graph where it
comes from somewhere else: a document may define it, and an object type may name it as an interface.
A built-in scalar that is defined is then a type that no reference leads to. Unless it is a root, or
declared as an object that implements an interface, it is not reached and the cascade marks it.

## Key results

- `mem_nodes_iff_declared`: which names are nodes
- `mem_reached_iff_of_isBuiltIn`: when a built-in scalar is reached
- `builtIn_takes_part_iff`: when it takes part in reachability and in the cascade
-/

namespace SchemaView

open Sdl

namespace Document

/-- A type is a root of an operation, or it is declared as an object that names one of some types as
    an interface. -/
def RootOrImplements (d : Document) (interfaces : NameSet) (n : Name) : Prop :=
  n ∈ d.roots.map Prod.snd ∨
    ∃ u ∈ d.typeDeclarations, u.name = n ∧ u.body.kind = .object ∧
      ∃ i ∈ interfacesOf u.body, i ∈ interfaces

variable {d : Document} {ignore : Option Name} {n : Name}

/-! ## Nodes -/

/-- A name is a node of the graph of a document if it is defined or an end of an edge. -/
theorem mem_nodes_graphOf_iff : n ∈ (d.graphOf ignore).nodes.keys ↔
    n ∈ d.definedTypes.keys ∨ ∃ x ∈ d.mentions ignore, x.Touches n := by
  rw [OrderedMap.mem_keys_iff, OrderedMap.mem_keys_iff]
  simp only [graphOf, TypeGraph.get?_nodes_foldl, get?_typeEntries]
  cases d.definedTypes.get? n with
  | none => simp
  | some t => simp

/-- Where all mentioned types are there, a name is a node if it is defined or if an object names it
    as an interface. -/
theorem mem_nodes_iff_declared
    (hmentioned : ∀ x ∈ d.mentions ignore, danglingError? d.definedTypes x = none) :
    n ∈ (d.graphOf ignore).nodes.keys ↔ n ∈ d.definedTypes.keys ∨
      ∃ u ∈ d.typeDeclarations, u.body.kind = .object ∧ n ∈ interfacesOf u.body := by
  rw [mem_nodes_graphOf_iff]
  constructor
  · intro hnode
    cases hnode with
    | inl hdefined => exact Or.inl hdefined
    | inr htouched =>
      obtain ⟨x, hx, ⟨source, target⟩, he, hend⟩ := htouched
      have hend : n = source ∨ n = target := hend
      have hedge : target ∈ (d.graphOf ignore).successors source :=
        (d.mem_successors_graphOf ignore source target).2 ⟨x, hx, he⟩
      have hlead := (mem_successors_iff_leadsTo hmentioned source target).1 hedge
      cases hend with
      | inl hsource =>
        subst hsource
        cases hlead with
        | refers ht _ _ _ =>
          exact Or.inl ((d.mem_keys_types n).1 ((OrderedMap.mem_keys_iff _ _).2 ⟨_, ht⟩))
        | implementedBy ht hu hobject hi =>
          exact Or.inr ⟨_, ((mem_declarations_iff ht _).1 hu).1, hobject, hi⟩
      | inr htarget =>
        -- Steps lead to defined types.
        rw [htarget]
        exact Or.inl (hlead.target_defined hmentioned)
  · intro hdeclared
    cases hdeclared with
    | inl hdefined => exact Or.inl hdefined
    | inr hinterface =>
      obtain ⟨u, hu, hobject, hi⟩ := hinterface
      have hedge : ∃ x ∈ bodyMentions ignore u.name u.body, x.edge? = some (n, u.name) :=
        exists_edge_bodyMentions_iff.2 (Or.inr ⟨rfl, hobject, hi⟩)
      obtain ⟨x, hx, he⟩ := exists_edge_mentions_iff.2 ⟨u, hu, hedge⟩
      exact Or.inr ⟨x, hx, _, he, Or.inl rfl⟩

/-! ## Reached types -/

/-- A built-in scalar is reached only if it is defined, its definition is not ignored, and it is a
    root or declared as an object that implements a reached interface. -/
theorem mem_reached_iff_of_isBuiltIn (hn : isBuiltIn n = true) {reached : NameSet}
    (h : d.reachable ignore = .ok reached) :
    n ∈ reached ↔
      (∃ t, d.definedTypes.get? n = some t ∧ isIgnored ignore t.directives = false) ∧
      d.RootOrImplements reached n := by
  have hderivable := mem_iff_derivable h
  constructor
  · intro hreached
    have hn' := (hderivable n).1 hreached
    refine ⟨hn'.definition, ?_⟩
    cases hn' with
    | start hroot => exact Or.inl hroot
    | step hs hlead =>
      -- The last step was no reference.
      cases hlead with
      | refers _ _ _ hscalar =>
        rw [hn] at hscalar
        cases hscalar
      | implementedBy ht hu hobject hi =>
        obtain ⟨hdeclared, hname⟩ := (mem_declarations_iff ht _).1 hu
        exact Or.inr ⟨_, hdeclared, hname, hobject, _, hi, (hderivable _).2 hs⟩
  · intro hentered
    obtain ⟨⟨t, ht, hopen⟩, hentry⟩ := hentered
    rw [hderivable]
    cases hentry with
    | inl hroot => exact .start hroot ht hopen
    | inr himplements =>
      obtain ⟨u, hu, hname, hobject, i, hi, hreached⟩ := himplements
      have htype := d.get?_types n
      rw [ht] at htype
      have hdeclared := (mem_declarations_iff htype u).2 ⟨hu, hname⟩
      exact .step ((hderivable i).1 hreached) (.implementedBy htype hdeclared hobject hi) ht hopen

/-! ## Taking part -/

/-- After a pass, the definition of a type carries the marker if it did before or the pass was to
    mark the type. -/
theorem get?_afterPass {marker : Name} {visible : NameSet} {t : TypeDecl}
    (ht : d.definedTypes.get? n = some t) :
    ∃ u, (d.afterPass marker visible).document.definedTypes.get? n = some u ∧
      (carries marker u.directives = true ↔
        carries marker t.directives = true ∨ n ∈ (d.afterPass marker visible).marked) := by
  rw [afterPass_document, get?_definedTypes_mark, ht, afterPass_marked]
  refine ⟨_, rfl, ?_⟩
  rw [markDeclaration_directives, carries_markIf, Bool.or_eq_true, name_of_get?_definedTypes ht]
  exact carries_or_passTest_iff ht

/-- A built-in scalar is a node if the document defines it or an object names it as an interface. It
    is reached if it is defined, not ignored, and a root or an object that implements a reached
    interface. Where it is defined and not reached, it is listed so, and the cascade marks its
    definition unless the type is to be kept or the definition has the marker. -/
theorem builtIn_takes_part_iff (d : Document) {n : Name} (hn : isBuiltIn n = true) :
    (∀ ignore g, d.typeGraph ignore = .ok g →
      (n ∈ g.nodes.keys ↔ n ∈ d.definedTypes.keys ∨
        ∃ u ∈ d.typeDeclarations, u.body.kind = .object ∧ n ∈ interfacesOf u.body)) ∧
    (∀ ignore left, d.unreachable ignore = .ok left → ∃ reached,
      d.reachable ignore = .ok reached ∧
      (n ∈ reached ↔
        (∃ t, d.definedTypes.get? n = some t ∧ isIgnored ignore t.directives = false) ∧
        d.RootOrImplements reached n) ∧
      (n ∈ left ↔ n ∈ d.definedTypes.keys ∧ n ∉ reached)) ∧
    ∀ marker keep limit result, d.cascade marker keep limit = .ok result → ∃ reached,
      d.reachable (some marker) = .ok reached ∧
      (n ∈ result.marked ↔ n ∉ keep ∧
        (∃ t, d.definedTypes.get? n = some t ∧ carries marker t.directives = false) ∧
        ¬ d.RootOrImplements reached n) ∧
      ∀ t, d.definedTypes.get? n = some t → ∃ u, result.document.definedTypes.get? n = some u ∧
        (carries marker u.directives = true ↔
          carries marker t.directives = true ∨ n ∈ result.marked) := by
  refine ⟨?_, ?_, ?_⟩
  · intro ignore g hgraph
    obtain ⟨hmentioned, rfl⟩ := (d.typeGraph_eq_ok_iff ignore g).1 hgraph
    exact mem_nodes_iff_declared hmentioned
  · intro ignore left hleft
    rw [unreachable] at hleft
    obtain ⟨reached, hreached, hfilter⟩ := bind_eq_ok_iff.1 hleft
    have hmem : n ∈ left ↔ n ∈ d.definedTypes.keys ∧ n ∉ reached := by
      rw [← pure_eq_ok_iff.1 hfilter]
      simp
    exact ⟨reached, hreached, mem_reached_iff_of_isBuiltIn hn hreached, hmem⟩
  · intro marker keep limit result hcascade
    obtain ⟨reached, hreached, rfl⟩ := afterPass_of_cascade hcascade
    refine ⟨reached, hreached, ?_, fun _ ht => get?_afterPass ht⟩
    rw [afterPass_marked, mem_pendingTypes, NameSet.mem_union, not_or,
      mem_reached_iff_of_isBuiltIn hn hreached]
    -- With an unmarked definition, not being reached comes down to having no entry.
    constructor
    · intro hpending
      obtain ⟨t, ht, ⟨hnot, hkeep⟩, hunmarked⟩ := hpending
      exact ⟨hkeep, ⟨t, ht, hunmarked⟩, fun hentry => hnot ⟨⟨t, ht, hunmarked⟩, hentry⟩⟩
    · intro hmarked
      obtain ⟨hkeep, ⟨t, ht, hunmarked⟩, hnoentry⟩ := hmarked
      exact ⟨t, ht, ⟨fun hentered => hnoentry hentered.2, hkeep⟩, hunmarked⟩

end Document

/-! ## Shops with their own scalars -/

/-- A shop that defines two built-in scalars, one of them as an object behind an interface, and that
    names a third one as an interface. -/
def ownScalarsShop : Document := ⟨[
  .type ⟨none, "Query", [], .object []
    [⟨none, "node", [], .named "Node", []⟩, ⟨none, "id", [], .named "ID", []⟩]⟩,
  .type ⟨none, "Node", [], .interface [] [⟨none, "name", [], .named "String", []⟩]⟩,
  .type ⟨none, "String", [], .object ["Node"] []⟩,
  .type ⟨none, "ID", [], .scalar⟩,
  .typeExtension ⟨none, "String", [], .object ["Int"] []⟩]⟩

/-- Of the three, the object is reached through its interface, and the scalar is marked by the
    cascade, although a field refers to it. -/
theorem ownScalarsShop_takes_part :
    isBuiltIn "String" = true ∧ isBuiltIn "Int" = true ∧ isBuiltIn "ID" = true ∧
    (∃ g, ownScalarsShop.typeGraph none = .ok g ∧ "Int" ∈ g.nodes.keys) ∧
    (∃ left, ownScalarsShop.unreachable none = .ok left ∧ "String" ∉ left) ∧
    ∃ result, ownScalarsShop.cascade defaultMarker .empty 1 = .ok result ∧
      "ID" ∈ result.marked := by
  obtain ⟨hint, -, -⟩ := Document.builtIn_takes_part_iff ownScalarsShop (n := "Int") rfl
  obtain ⟨-, hstring, -⟩ := Document.builtIn_takes_part_iff ownScalarsShop (n := "String") rfl
  obtain ⟨-, -, hid⟩ := Document.builtIn_takes_part_iff ownScalarsShop (n := "ID") rfl
  have hnode : ∃ g, ownScalarsShop.typeGraph none = .ok g ∧ "Int" ∈ g.nodes.keys := by
    have hinterface : ∃ u ∈ ownScalarsShop.typeDeclarations,
        u.body.kind = .object ∧ "Int" ∈ interfacesOf u.body := by decide +kernel
    exact ⟨_, rfl, (hint none _ rfl).2 (Or.inr hinterface)⟩
  have hleft : ∃ left, ownScalarsShop.unreachable none = .ok left ∧ "String" ∉ left := by
    obtain ⟨left, hrun⟩ : ∃ left, ownScalarsShop.unreachable none = .ok left := ⟨_, rfl⟩
    obtain ⟨reached, hreached, hiff, hmem⟩ := hstring none left hrun
    have hnode : "Node" ∈ reached := by
      cases hreached
      decide +kernel
    obtain ⟨u, hu, hname, hobject, hi⟩ : ∃ u ∈ ownScalarsShop.typeDeclarations,
        u.name = "String" ∧ u.body.kind = .object ∧ "Node" ∈ interfacesOf u.body := by
      decide +kernel
    have himplements : ownScalarsShop.RootOrImplements reached "String" :=
      Or.inr ⟨u, hu, hname, hobject, "Node", hi, hnode⟩
    have hin : "String" ∈ reached := hiff.2 ⟨⟨_, rfl, rfl⟩, himplements⟩
    exact ⟨left, hrun, fun h => (hmem.1 h).2 hin⟩
  have hmarked : ∃ result, ownScalarsShop.cascade defaultMarker .empty 1 = .ok result ∧
      "ID" ∈ result.marked := by
    obtain ⟨result, hrun⟩ : ∃ result,
        ownScalarsShop.cascade defaultMarker .empty 1 = .ok result := ⟨_, rfl⟩
    obtain ⟨reached, -, hiff, -⟩ := hid defaultMarker .empty 1 result hrun
    have hnoentry : ¬ ownScalarsShop.RootOrImplements reached "ID" := by
      intro hentry
      cases hentry with
      | inl hroot => exact absurd hroot (by decide +kernel)
      | inr himplements =>
        obtain ⟨u, hu, hname, hobject, -⟩ := himplements
        have hscalar : ∀ u ∈ ownScalarsShop.typeDeclarations, u.name = "ID" →
            u.body.kind ≠ .object := by decide +kernel
        exact hscalar u hu hname hobject
    exact ⟨result, hrun, hiff.2 ⟨NameSet.not_mem_empty _, ⟨_, rfl, rfl⟩, hnoentry⟩⟩
  exact ⟨rfl, rfl, rfl, hnode, hleft, hmarked⟩

/-- A shop that defines a built-in scalar to which its only field refers. -/
def redefinedScalarShop : Document := ⟨[
  .type ⟨none, "Query", [], .object [] [⟨none, "id", [], .named "ID", []⟩]⟩,
  .type ⟨none, "ID", [], .scalar⟩]⟩

/-- The scalar is a node, it is listed as not reached, and the cascade marks it. -/
theorem redefinedScalarShop_loses_scalar : isBuiltIn "ID" = true ∧
    (∃ g, redefinedScalarShop.typeGraph none = .ok g ∧ "ID" ∈ g.nodes.keys) ∧
    redefinedScalarShop.unreachable none = .ok ["ID"] ∧
    ∃ result, redefinedScalarShop.cascade defaultMarker .empty 1 = .ok result ∧
      result.marked = ["ID"] :=
  ⟨rfl, ⟨_, rfl, by decide +kernel⟩, rfl, _, rfl, rfl⟩

end SchemaView
