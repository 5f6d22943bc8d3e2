import SchemaView.Proofs.DeclaredTags
import SchemaView.Proofs.ProtectedTypes

/-!
# The order of definitions

What a document says does not depend on the order in which it says it, as long as no type and no
directive is defined twice and the declarations of the schema keep their order. Two documents that
say the same give every name the same definition, have the same extensions and declare the same
roots (`SameDeclarations`). The lists that are read off them may differ in order: what is mentioned,
reached, tagged and protected is the same.

## Key results

- `sameDeclarations_of_perm`: reordering definitions keeps what a document says
- `SameDeclarations.reachable_iff`: what the roots reach
- `SameDeclarations.get?_tags`: the tags of elements
- `SameDeclarations.protectedTypes_iff`: the protected types
- `SameDeclarations.get?_types`: named types, up to the order of their extensions
-/

namespace SchemaView

open Sdl

namespace Document

/-- Two documents give every name the same definition, have the same extensions in some order, and
    declare the schema in the same way. -/
structure SameDeclarations (d e : Document) : Prop where
  types : ∀ n, e.definedTypes.get? n = d.definedTypes.get? n
  extensions : e.extensions.Perm d.extensions
  schema : e.schemaDeclarations = d.schemaDeclarations
  directives : ∀ n, e.definedDirectives.get? n = d.definedDirectives.get? n

/-- No type is defined twice. -/
def DistinctTypes (d : Document) : Prop :=
  ((d.definitions.filterMap typeDefinition?).map TypeDecl.name).Nodup

/-- No directive is defined twice. -/
def DistinctDirectives (d : Document) : Prop :=
  ((d.definitions.filterMap directiveDefinition?).map DirectiveDecl.name).Nodup

/-- No type has two members of one name, in its definition and its extensions taken together. -/
def DistinctMembers (d : Document) : Prop :=
  ∀ t ∈ d.types.values, (t.members.map Member.name).Nodup

instance (d : Document) : Decidable d.DistinctTypes := inferInstanceAs (Decidable (List.Nodup _))

instance (d : Document) : Decidable d.DistinctDirectives :=
  inferInstanceAs (Decidable (List.Nodup _))

instance (d : Document) : Decidable d.DistinctMembers :=
  inferInstanceAs (Decidable (∀ t ∈ d.types.values, (t.members.map Member.name).Nodup))

/-- Reordering definitions of distinct types and directives changes nothing that a document says, if
    the declarations of the schema keep their order. -/
theorem sameDeclarations_of_perm {d e : Document} (h : e.definitions.Perm d.definitions)
    (hschema : e.schemaDeclarations = d.schemaDeclarations) (htypes : d.DistinctTypes)
    (hdirectives : d.DistinctDirectives) : d.SameDeclarations e where
  types := by
    apply OrderedMap.get?_ofList_of_perm ((h.filterMap typeDefinition?).map _)
    rw [List.map_map]
    exact htypes
  extensions := h.filterMap typeExtension?
  schema := hschema
  directives := by
    apply OrderedMap.get?_ofList_of_perm ((h.filterMap directiveDefinition?).map _)
    rw [List.map_map]
    exact hdirectives

namespace SameDeclarations

variable {d e : Document} (h : d.SameDeclarations e)

include h

theorem symm : e.SameDeclarations d where
  types n := (h.types n).symm
  extensions := h.extensions.symm
  schema := h.schema.symm
  directives n := (h.directives n).symm

/-- A property that passes from any document to one that says the same is one of both or of
    neither. -/
theorem iff_of_imp {p : Document → Prop}
    (himp : ∀ {d e : Document}, d.SameDeclarations e → p d → p e) : p e ↔ p d :=
  ⟨himp h.symm, himp h⟩

/-- Marking two documents in the same way keeps that they say the same. -/
theorem mark (marker : Name) (hit : Coordinate → Bool) :
    (d.mark marker hit).SameDeclarations (e.mark marker hit) where
  types n := by rw [get?_definedTypes_mark, get?_definedTypes_mark, h.types]
  extensions := by
    rw [extensions_mark, extensions_mark]
    exact h.extensions.map _
  schema := by rw [schemaDeclarations_mark, schemaDeclarations_mark, h.schema]
  directives n := by rw [definedDirectives_mark, definedDirectives_mark, h.directives]

/-! ## Declarations -/

theorem mem_keys_iff (n : Name) : n ∈ e.definedTypes.keys ↔ n ∈ d.definedTypes.keys := by
  rw [OrderedMap.mem_keys_iff, OrderedMap.mem_keys_iff, h.types]

theorem contains_eq : e.definedTypes.contains = d.definedTypes.contains := by
  funext n
  rw [Bool.eq_iff_iff, OrderedMap.contains_iff, OrderedMap.contains_iff]
  exact h.mem_keys_iff n

theorem mem_values_iff (u : TypeDecl) : u ∈ e.definedTypes.values ↔ u ∈ d.definedTypes.values := by
  rw [mem_values_definedTypes_iff, mem_values_definedTypes_iff, h.types]

theorem mem_typeDeclarations_iff (u : TypeDecl) :
    u ∈ e.typeDeclarations ↔ u ∈ d.typeDeclarations := by
  rw [typeDeclarations, typeDeclarations, List.mem_append, List.mem_append, h.mem_values_iff,
    h.extensions.mem_iff]

theorem roots_eq : e.roots = d.roots := by
  have hdeclared : e.declaredRoots = d.declaredRoots := by
    rw [declaredRoots, declaredRoots, h.schema]
  simp only [roots, hdeclared, h.contains_eq]

/-- A named type has the same definition and the same extensions in some order. -/
theorem get?_types {n : Name} {t : NamedType} (ht : d.types.get? n = some t) :
    ∃ t', e.types.get? n = some t' ∧ t'.definition = t.definition ∧
      t'.declarations.Perm t.declarations := by
  rw [Document.get?_types] at ht ⊢
  obtain ⟨definition, hdefinition, rfl⟩ := Option.map_eq_some_iff.1 ht
  rw [h.types, hdefinition]
  exact ⟨_, rfl, rfl, (h.extensions.filter _).cons _⟩

theorem distinctMembers (hd : d.DistinctMembers) : e.DistinctMembers := by
  intro t' ht'
  obtain ⟨n, hn'⟩ := (OrderedMap.mem_values_iff _ _).1 ht'
  obtain ⟨t, hn, -, hperm⟩ := h.symm.get?_types hn'
  have hmembers : t.members.Perm t'.members := hperm.flatMap_right _
  exact (hmembers.map Member.name).nodup_iff.1 (hd t ((OrderedMap.mem_values_iff _ _).2 ⟨n, hn⟩))

/-! ## References -/

variable (ignore : Option Name)

theorem mem_mentions_iff (x : Mention) : x ∈ e.mentions ignore ↔ x ∈ d.mentions ignore := by
  simp only [mentions, List.mem_append, List.mem_flatMap, h.mem_values_iff, h.extensions.mem_iff]

/-- A type that is missing is missing for both documents. -/
theorem danglingError?_eq : danglingError? e.definedTypes = danglingError? d.definedTypes := by
  funext x
  cases x <;> simp only [danglingError?, h.contains_eq]

theorem forall_mentions_iff {p : Mention → Prop} :
    (∀ x ∈ e.mentions ignore, p x) ↔ ∀ x ∈ d.mentions ignore, p x := by
  simp only [h.mem_mentions_iff]

theorem resolves_iff : e.Resolves ignore ↔ d.Resolves ignore := by
  apply h.iff_of_imp
  intro d e h hd
  constructor
  · rw [h.danglingError?_eq, h.forall_mentions_iff]
    exact hd.mentioned
  · intro root hroot
    rw [h.mem_keys_iff]
    exact hd.roots root (h.roots_eq ▸ hroot)

theorem isOpen_graphOf_iff (n : Name) :
    (e.graphOf ignore).isOpen n = true ↔ (d.graphOf ignore).isOpen n = true := by
  simp only [isOpen_graphOf, h.types, h.mem_mentions_iff]

theorem mem_successors_iff (n t : Name) :
    t ∈ (e.graphOf ignore).successors n ↔ t ∈ (d.graphOf ignore).successors n := by
  simp only [mem_successors_graphOf, h.mem_mentions_iff]

/-- Walks through the graphs of both documents enter the same types. -/
theorem reachable_graphOf (starts : List Name) :
    (e.graphOf ignore).reachable starts = (d.graphOf ignore).reachable starts := by
  apply NameSet.ext
  intro n
  rw [TypeGraph.mem_reachable_iff, TypeGraph.mem_reachable_iff]
  constructor
  · intro hn
    exact hn.mono (fun n => (h.isOpen_graphOf_iff ignore n).1)
      fun n t => (h.mem_successors_iff ignore n t).1
  · intro hn
    exact hn.mono (fun n => (h.isOpen_graphOf_iff ignore n).2)
      fun n t => (h.mem_successors_iff ignore n t).2

/-- The roots of both documents reach the same types. -/
theorem reachable_iff {reached : NameSet} :
    e.reachable ignore = .ok reached ↔ d.reachable ignore = .ok reached := by
  rw [reachable_eq_ok_iff, reachable_eq_ok_iff, h.resolves_iff, h.roots_eq, h.reachable_graphOf]

/-! ## Protected types -/

omit ignore

theorem directiveArgumentTypes_eq : e.directiveArgumentTypes = d.directiveArgumentTypes := by
  have hused : NameSet.ofList (e.definedDirectives.values.flatMap fun t =>
        t.arguments.map fun a => a.type.baseName) =
      NameSet.ofList (d.definedDirectives.values.flatMap fun t =>
        t.arguments.map fun a => a.type.baseName) := by
    apply NameSet.ext
    intro n
    simp only [NameSet.mem_ofList, List.mem_flatMap, OrderedMap.mem_values_iff, h.directives]
  rw [directiveArgumentTypes, directiveArgumentTypes, hused, h.contains_eq]

/-- Both documents protect the same types. -/
theorem protectedTypes_iff {config : Config} {kept : NameSet} :
    e.protectedTypes config = .ok kept ↔ d.protectedTypes config = .ok kept := by
  simp only [protectedTypes, bind_eq_ok_iff, directiveTypes_eq_ok_iff, h.directiveArgumentTypes_eq,
    h.forall_mentions_iff, h.danglingError?_eq, h.reachable_graphOf]

/-! ## Tags -/

theorem tagDirective_eq (default : Name) : e.tagDirective default = d.tagDirective default := by
  rw [tagDirective, tagDirective, h.schema]

/-- The elements of both documents have the same tags. -/
theorem of_tagsBy (name : Name) (c : Coordinate) : (e.tagsBy name).of c = (d.tagsBy name).of c := by
  apply NameSet.ext
  intro tag
  -- A tag at a site of a type is there in every order of its declarations.
  apply h.iff_of_imp (p := fun d => tag ∈ (d.tagsBy name).of c)
  intro d e h htag
  rw [mem_of_tagsBy] at htag ⊢
  obtain ⟨t, ht, u, hu, s, hs, htag⟩ := htag
  obtain ⟨n, hn⟩ := (OrderedMap.mem_values_iff _ _).1 ht
  obtain ⟨t', ht', -, hperm⟩ := h.get?_types hn
  exact ⟨t', (OrderedMap.mem_values_iff _ _).2 ⟨n, ht'⟩, u, hperm.mem_iff.2 hu, s, hs, htag⟩

theorem get?_tagsBy (name : Name) (c : Coordinate) :
    (e.tagsBy name).get? c = (d.tagsBy name).get? c :=
  get?_tagsBy_congr (h.of_tagsBy name c)

/-- The same elements of both documents are listed with tags, and with the same ones. -/
theorem get?_tags (tagDirective : Option Name) (c : Coordinate) :
    (e.tags tagDirective).get? c = (d.tags tagDirective).get? c := by
  cases tagDirective <;> simp only [tags, h.tagDirective_eq, h.get?_tagsBy]

end SameDeclarations

end Document

end SchemaView
