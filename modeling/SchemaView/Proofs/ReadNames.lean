import SchemaView.Proofs.Marking
import SchemaView.Proofs.ReadTrees

/-!
# The names in a document that was read

The types, members and arguments of a document that was read are well-formed, so their names are
names: none of them is empty or has a dot in it, and their coordinates can be told apart by their
texts.

## Key results

- `wellFormed_definitions_of_parse`: the definitions of a document that was read
- `wellNamed_of_parse`: a document that was read has well-named elements
-/

namespace SchemaView

open Sdl

/-- A member of a type that a text can write. -/
structure Member.WellFormed (m : Member) : Prop where
  name : IsNameText m.name
  directives : ConstDirectives m.directives
  arguments : ∀ a ∈ m.arguments, a.WellFormed

end SchemaView

namespace SchemaView.Sdl

/-- The members of a well-formed type are well-formed. -/
theorem TypeDecl.WellFormed.members {t : TypeDecl} (h : t.WellFormed) :
    ∀ m ∈ membersOf t.body, m.WellFormed := by
  have hbody := h.body
  have hfields : ∀ {fields : List Field}, (∀ f ∈ fields, f.WellFormed) →
      ∀ m ∈ fields.map Member.ofField, m.WellFormed := fun hall =>
    List.forall_mem_map.2 fun f hf =>
      ⟨(hall f hf).name, (hall f hf).directives, (hall f hf).arguments⟩
  cases heq : t.body with
  | scalar => exact List.forall_mem_nil _
  | union members => exact List.forall_mem_nil _
  | object interfaces fields =>
    rw [heq] at hbody
    exact hfields hbody.2
  | interface interfaces fields =>
    rw [heq] at hbody
    exact hfields hbody.2
  | enum values =>
    rw [heq] at hbody
    exact List.forall_mem_map.2 fun v hv =>
      ⟨(hbody v hv).name, (hbody v hv).directives, List.forall_mem_nil _⟩
  | inputObject fields =>
    rw [heq] at hbody
    exact List.forall_mem_map.2 fun v hv =>
      ⟨(hbody v hv).name, (hbody v hv).directives, List.forall_mem_nil _⟩

/-- The directives of the elements of a well-formed type are well-formed. -/
theorem TypeDecl.WellFormed.sites {t : TypeDecl} (h : t.WellFormed) :
    ∀ s ∈ sitesOf t, ConstDirectives s.directives := by
  intro s hs
  rcases List.mem_cons.1 hs with rfl | hs
  · exact h.directives
  · obtain ⟨m, hm, hs⟩ := List.mem_flatMap.1 hs
    rcases List.mem_cons.1 hs with rfl | hs
    · exact (h.members m hm).directives
    · obtain ⟨a, ha, rfl⟩ := List.mem_map.1 hs
      exact ((h.members m hm).arguments a ha).directives

/-- The declaration of a type in a well-formed definition is well-formed. -/
theorem Definition.WellFormed.declaration {x : Definition} (h : x.WellFormed) {t : TypeDecl}
    (ht : declaration? x = some t) : t.WellFormed := by
  cases x with
  | type d =>
    cases ht
    exact h
  | typeExtension d =>
    cases ht
    exact h.1
  | _ => cases ht

end SchemaView.Sdl

namespace SchemaView.Document

open Sdl

variable {d : Document}

/-- Every declaration that counts is one of a definition of the document. -/
theorem exists_declaration_of_mem {t : TypeDecl} (h : t ∈ d.typeDeclarations) :
    ∃ x ∈ d.definitions, declaration? x = some t := by
  rcases List.mem_append.1 h with h | h
  · have hget := mem_values_definedTypes_iff.1 h
    -- What a name has as its last definition is one of the definitions.
    obtain ⟨u, hu, heq⟩ := List.mem_map.1 (OrderedMap.mem_of_get?_ofList _ _ _ hget)
    obtain rfl := (Prod.mk.inj heq).2
    obtain ⟨x, hx, hdefinition⟩ := List.mem_filterMap.1 hu
    refine ⟨x, hx, ?_⟩
    cases x <;> simp_all [typeDefinition?, declaration?]
  · obtain ⟨x, hx, hextension⟩ := List.mem_filterMap.1 h
    refine ⟨x, hx, ?_⟩
    cases x <;> simp_all [typeExtension?, declaration?]

/-- The definitions of a document that was read are well-formed, and there is one. -/
theorem wellFormed_definitions_of_parse {text : String} (h : Document.parse text = .ok d) :
    d.definitions ≠ [] ∧ ∀ x ∈ d.definitions, x.WellFormed := by
  rw [Document.parse] at h
  cases hread : Sdl.parse text with
  | error fault =>
    rw [hread] at h
    cases h
  | ok xs =>
    rw [hread] at h
    cases h
    exact wellFormed_of_parse hread

/-- No name of a type, member or argument of a document that was read is empty or has a dot. -/
theorem wellNamed_of_parse {text : String} (h : Document.parse text = .ok d) : d.WellNamed := by
  intro t ht s hs
  obtain ⟨x, hx, hdeclaration⟩ := exists_declaration_of_mem ht
  have hwell := ((wellFormed_definitions_of_parse h).2 x hx).declaration hdeclaration
  rw [Coordinate.WellNamed]
  rcases List.mem_cons.1 hs with rfl | hs
  · simpa [Coordinate.parts] using hwell.name.isPart
  · obtain ⟨m, hm, hs⟩ := List.mem_flatMap.1 hs
    have hmember := hwell.members m hm
    rcases List.mem_cons.1 hs with rfl | hs
    · simpa [Coordinate.parts] using ⟨hwell.name.isPart, hmember.name.isPart⟩
    · obtain ⟨a, ha, rfl⟩ := List.mem_map.1 hs
      have hargument := (hmember.arguments a ha).name
      simpa [Coordinate.parts] using ⟨hwell.name.isPart, hmember.name.isPart, hargument.isPart⟩

end SchemaView.Document
