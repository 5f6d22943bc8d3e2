import SchemaView.Contract.Compilation
import SchemaView.Proofs.GraphCorrect
import SchemaView.Proofs.MarkBlindness

/-!
# The added definition of the marker

`Document.ensureMarkerFor` may append a definition of the marker to a document. The definition is
that of a directive without arguments, so nothing that is read off types, roots or the arguments of
directives changes, and with the definition there it is not added again.

## Key results

- `reachable_ensureMarkerFor`, `tags_ensureMarkerFor`, `ownership_ensureMarkerFor`,
  `exclusions_ensureMarkerFor`: the views that do not see the definition
- `directiveTypes_ensureMarkerFor`: it uses no type
- `ensureMarkerFor_ensureMarkerFor`: it is added once
-/

namespace SchemaView

open Sdl

/-- The definition of a marker that is added where it is missing. -/
def markerDefinition (marker : Name) : Definition :=
  .directive ⟨none, marker, [], false, markerPlaces⟩

namespace Document

variable (d : Document) (config : Config)

/-- Adding a definition where it is wanted leaves the document as it is or appends the
    definition. -/
theorem definitions_ensureMarkerFor : (d.ensureMarkerFor config).definitions = d.definitions ∨
    (d.ensureMarkerFor config).definitions
      = d.definitions ++ [markerDefinition config.marker] := by
  unfold ensureMarkerFor ensureMarker
  split
  · split
    · exact Or.inl rfl
    · exact Or.inr rfl
  · exact Or.inl rfl

/-! ## Views that do not see it -/

private theorem filterMap_ensureMarkerFor {α : Type} (f : Definition → Option α)
    (hf : f (markerDefinition config.marker) = none) :
    (d.ensureMarkerFor config).definitions.filterMap f = d.definitions.filterMap f := by
  rcases d.definitions_ensureMarkerFor config with h | h
  · rw [h]
  · rw [h, List.filterMap_append]
    simp [hf]

@[simp] theorem definedTypes_ensureMarkerFor :
    (d.ensureMarkerFor config).definedTypes = d.definedTypes := by
  simp only [definedTypes, filterMap_ensureMarkerFor d config typeDefinition? rfl]

@[simp] theorem extensions_ensureMarkerFor :
    (d.ensureMarkerFor config).extensions = d.extensions :=
  filterMap_ensureMarkerFor d config typeExtension? rfl

@[simp] theorem schemaDeclarations_ensureMarkerFor :
    (d.ensureMarkerFor config).schemaDeclarations = d.schemaDeclarations :=
  filterMap_ensureMarkerFor d config schemaDeclaration? rfl

@[simp] theorem typeDeclarations_ensureMarkerFor :
    (d.ensureMarkerFor config).typeDeclarations = d.typeDeclarations := by
  simp [typeDeclarations]

@[simp] theorem types_ensureMarkerFor : (d.ensureMarkerFor config).types = d.types := by
  simp [types]

@[simp] theorem uses_ensureMarkerFor (name : Name) :
    (d.ensureMarkerFor config).uses name = d.uses name := by
  simp [uses]

@[simp] theorem typeGraph_ensureMarkerFor (ignore : Option Name) :
    (d.ensureMarkerFor config).typeGraph ignore = d.typeGraph ignore := by
  simp [typeGraph, mentions, typeEntries]

@[simp] theorem reachable_ensureMarkerFor (ignore : Option Name) :
    (d.ensureMarkerFor config).reachable ignore = d.reachable ignore := by
  simp [reachable, rootTypes, roots, declaredRoots]

@[simp] theorem pendingTypes_ensureMarkerFor (marker : Name) (keep : NameSet) :
    (d.ensureMarkerFor config).pendingTypes marker keep = d.pendingTypes marker keep := by
  simp [pendingTypes]

@[simp] theorem tagDirective_ensureMarkerFor (default : Name) :
    (d.ensureMarkerFor config).tagDirective default = d.tagDirective default := by
  simp [tagDirective]

@[simp] theorem tags_ensureMarkerFor (tagDirective : Option Name) :
    (d.ensureMarkerFor config).tags tagDirective = d.tags tagDirective := by
  cases tagDirective <;> simp [tags, tagsBy]

@[simp] theorem ownership_ensureMarkerFor :
    (d.ensureMarkerFor config).ownership = d.ownership := by
  simp [ownership, graphSymbols, graphValues]

@[simp] theorem exclusions_ensureMarkerFor (f : Filter) (skip : NameSet) :
    f.exclusions (d.ensureMarkerFor config) skip = f.exclusions d skip := by
  simp [Filter.exclusions]

/-! ## Directives -/

/-- The defined directives after one more definition of a directive. -/
private theorem definedDirectives_append (t : DirectiveDecl) :
    (Document.mk (d.definitions ++ [.directive t])).definedDirectives
      = d.definedDirectives.insert t.name t := by
  simp [definedDirectives, directiveDefinition?, OrderedMap.ofList, OrderedMap.insertMany]

/-- What the arguments of directives use is the same with the definition as without. -/
theorem directiveTypes_ensureMarkerFor :
    (d.ensureMarkerFor config).directiveTypes = d.directiveTypes := by
  have hused : (d.ensureMarkerFor config).definedDirectives.values.flatMap
        (fun t => t.arguments.map fun a => a.type.baseName)
      = d.definedDirectives.values.flatMap fun t => t.arguments.map fun a => a.type.baseName := by
    unfold ensureMarkerFor ensureMarker
    split
    · split
      · rfl
      · rename_i hnot
        rw [OrderedMap.contains_iff] at hnot
        rw [definedDirectives_append, OrderedMap.values,
          OrderedMap.entries_insert_of_not_mem _ _ _ hnot]
        simp [OrderedMap.values]
    · rfl
  simp only [directiveTypes, hused, definedTypes_ensureMarkerFor, typeGraph_ensureMarkerFor]

/-- With the definition there the marker is defined. -/
theorem mem_definedDirectives_ensureMarker (marker : Name) :
    marker ∈ (d.ensureMarker marker).definedDirectives.keys := by
  unfold ensureMarker
  split
  · rename_i h
    exact (OrderedMap.contains_iff _ _).1 h
  · rw [definedDirectives_append, OrderedMap.mem_keys_insert]
    exact Or.inl rfl

/-- The definition is added once. -/
theorem ensureMarkerFor_ensureMarkerFor :
    (d.ensureMarkerFor config).ensureMarkerFor config = d.ensureMarkerFor config := by
  rw [ensureMarkerFor, uses_ensureMarkerFor]
  split
  · rename_i h
    have hdocument : d.ensureMarkerFor config = d.ensureMarker config.marker := by
      rw [ensureMarkerFor, if_pos h]
    -- The marker is defined after the first time.
    rw [hdocument, ensureMarker, if_pos]
    exact (OrderedMap.contains_iff _ _).2 (d.mem_definedDirectives_ensureMarker config.marker)
  · rfl

/-- A marking that changes nothing in a document changes nothing with the definition there. -/
theorem mark_ensureMarkerFor {marker : Name} {hit : Coordinate → Bool}
    (h : d.mark marker hit = d) :
    (d.ensureMarkerFor config).mark marker hit = d.ensureMarkerFor config := by
  have hdefinitions : d.definitions.map (markDefinition marker hit) = d.definitions :=
    congrArg Document.definitions h
  -- The added definition is no declaration of a type, so it is not marked.
  have happended : ∀ e : Document, e.definitions = d.definitions ∨
      e.definitions = d.definitions ++ [markerDefinition config.marker] →
      e.mark marker hit = e := by
    rintro ⟨definitions⟩ (rfl | rfl)
    · exact h
    · simp only [mark, List.map_append, hdefinitions]
      rfl
  exact happended _ (d.definitions_ensureMarkerFor config)

end Document

end SchemaView
