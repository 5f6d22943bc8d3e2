import SchemaView.Marking
import SchemaView.Proofs.OrderedMap

/-!
# Marking as a map over sites

`Document.mark` walks through definitions, members and arguments. Seen through the views that the
rest of the library uses, it does one thing: it changes the directives of every site by a test of
its coordinate. This file proves that for each view.

## Key results

- `sitesOf_markDeclaration`: the sites of a marked declaration are the marked sites
- `definedTypes_mark` / `extensions_mark` / `types_mark`: the types of a marked document
- `mem_declarations_iff`: the declarations of a named type
- `mark_mark`: two rounds of marking are one
- `markBody_of_typesOnly`: a test that only types pass leaves the bodies of declarations alone
-/

namespace SchemaView

open Sdl

/-- A site with the marker among its directives if its coordinate passes a test. -/
def Site.mark (marker : Name) (hit : Coordinate → Bool) (s : Site) : Site :=
  { s with directives := markIf (hit s.coordinate) marker s.directives }

/-- A member of a type, marked together with its arguments. -/
def Member.mark (marker : Name) (hit : Coordinate → Bool) (type : Name) (m : Member) : Member :=
  { m with
    directives := markIf (hit (.member type m.name)) marker m.directives
    arguments := m.arguments.map (markArgument marker hit type m.name) }

/-- The declaration of a type that a definition is, if it defines or extends one. -/
def declaration? : Definition → Option TypeDecl
  | .type t | .typeExtension t => some t
  | _ => none

/-- A named type whose declarations are all marked. -/
def NamedType.mark (marker : Name) (hit : Coordinate → Bool) (t : NamedType) : NamedType :=
  ⟨markDeclaration marker hit t.definition, t.extensions.map (markDeclaration marker hit)⟩

variable (marker : Name) (hit : Coordinate → Bool)

/-- Every declaration of a marked type is marked. -/
theorem NamedType.declarations_mark (t : NamedType) :
    (t.mark marker hit).declarations = t.declarations.map (markDeclaration marker hit) := rfl

/-! ## Directives -/

@[simp] theorem markIf_false (directives : List Directive) :
    markIf false marker directives = directives := rfl

/-- After marking, the marker is there if it was before or the condition held. -/
theorem carries_markIf (condition : Bool) (directives : List Directive) :
    carries marker (markIf condition marker directives)
      = (carries marker directives || condition) := by
  cases condition with
  | false => simp
  | true => simp [markIf, carries_markDirectives]

/-- Marking leaves directives as they were or appends one marker. -/
theorem markIf_eq_or (condition : Bool) (directives : List Directive) :
    markIf condition marker directives = directives
      ∨ markIf condition marker directives = directives ++ [⟨marker, []⟩] := by
  unfold markIf markDirectives
  split
  · split
    · exact Or.inl rfl
    · exact Or.inr rfl
  · exact Or.inl rfl

/-! ## Members and sites -/

@[simp] theorem markDeclaration_name (d : TypeDecl) :
    (markDeclaration marker hit d).name = d.name := rfl

@[simp] theorem markDeclaration_directives (d : TypeDecl) :
    (markDeclaration marker hit d).directives
      = markIf (hit (.type d.name)) marker d.directives := rfl

@[simp] theorem markDeclaration_body (d : TypeDecl) :
    (markDeclaration marker hit d).body = markBody marker hit d.name d.body := rfl

@[simp] theorem kind_markBody (type : Name) (b : TypeBody) :
    (markBody marker hit type b).kind = b.kind := by
  cases b <;> rfl

/-- The members of a marked declaration are the marked members. -/
theorem membersOf_markBody (type : Name) (b : TypeBody) :
    membersOf (markBody marker hit type b)
      = (membersOf b).map (Member.mark marker hit type) := by
  cases b <;>
    simp only [markBody, membersOf, List.map_map, List.map_nil] <;>
    exact List.map_congr_left fun _ _ => rfl

/-- The sites of a marked member are the marked sites. -/
theorem sites_mark (type : Name) (m : Member) :
    (m.mark marker hit type).sites type = (m.sites type).map (Site.mark marker hit) := by
  simp only [Member.sites, Member.mark, Site.mark, List.map_cons, List.map_map]
  congr 1

/-- The sites of a marked declaration are the marked sites. -/
theorem sitesOf_markDeclaration (d : TypeDecl) :
    sitesOf (markDeclaration marker hit d) = (sitesOf d).map (Site.mark marker hit) := by
  simp only [sitesOf, markDeclaration_body, markDeclaration_name, membersOf_markBody,
    List.map_cons, List.flatMap_map, sites_mark, List.map_flatMap]
  rfl

/-! ## Definitions -/

@[simp] theorem typeDefinition?_markDefinition (x : Definition) :
    typeDefinition? (markDefinition marker hit x)
      = (typeDefinition? x).map (markDeclaration marker hit) := by
  cases x <;> rfl

@[simp] theorem typeExtension?_markDefinition (x : Definition) :
    typeExtension? (markDefinition marker hit x)
      = (typeExtension? x).map (markDeclaration marker hit) := by
  cases x <;> rfl

@[simp] theorem declaration?_markDefinition (x : Definition) :
    declaration? (markDefinition marker hit x)
      = (declaration? x).map (markDeclaration marker hit) := by
  cases x <;> rfl

@[simp] theorem directiveDefinition?_markDefinition (x : Definition) :
    directiveDefinition? (markDefinition marker hit x) = directiveDefinition? x := by
  cases x <;> rfl

@[simp] theorem schemaDeclaration?_markDefinition (x : Definition) :
    schemaDeclaration? (markDefinition marker hit x) = schemaDeclaration? x := by
  cases x <;> rfl

namespace Document

variable (d : Document)

/-! ## The views of a marked document -/

private theorem typeDefinition?_comp_markDefinition :
    typeDefinition? ∘ markDefinition marker hit
      = fun x => (typeDefinition? x).map (markDeclaration marker hit) :=
  funext fun x => typeDefinition?_markDefinition marker hit x

private theorem typeExtension?_comp_markDefinition :
    typeExtension? ∘ markDefinition marker hit
      = fun x => (typeExtension? x).map (markDeclaration marker hit) :=
  funext fun x => typeExtension?_markDefinition marker hit x

/-- Marking keeps the defined types and marks the definition of each. -/
theorem definedTypes_mark : (d.mark marker hit).definedTypes
    = d.definedTypes.map fun _ t => markDeclaration marker hit t := by
  simp only [definedTypes, mark, OrderedMap.map_ofList, List.filterMap_map,
    typeDefinition?_comp_markDefinition, ← List.map_filterMap, List.map_map]
  rfl

/-- Marking keeps the extensions and marks each of them. -/
theorem extensions_mark :
    (d.mark marker hit).extensions = d.extensions.map (markDeclaration marker hit) := by
  simp only [extensions, mark, List.filterMap_map, typeExtension?_comp_markDefinition,
    ← List.map_filterMap]

@[simp] theorem schemaDeclarations_mark :
    (d.mark marker hit).schemaDeclarations = d.schemaDeclarations := by
  have hcomp : schemaDeclaration? ∘ markDefinition marker hit = schemaDeclaration? :=
    funext fun x => schemaDeclaration?_markDefinition marker hit x
  simp only [schemaDeclarations, mark, List.filterMap_map, hcomp]

@[simp] theorem definedDirectives_mark :
    (d.mark marker hit).definedDirectives = d.definedDirectives := by
  have hcomp : directiveDefinition? ∘ markDefinition marker hit = directiveDefinition? :=
    funext fun x => directiveDefinition?_markDefinition marker hit x
  simp only [definedDirectives, mark, List.filterMap_map, hcomp]

@[simp] theorem keys_definedTypes_mark :
    (d.mark marker hit).definedTypes.keys = d.definedTypes.keys := by
  rw [definedTypes_mark, OrderedMap.keys_map]

@[simp] theorem contains_definedTypes_mark (name : Name) :
    (d.mark marker hit).definedTypes.contains name = d.definedTypes.contains name := by
  rw [definedTypes_mark, OrderedMap.contains_map]

/-- The definition of a type after marking. -/
theorem get?_definedTypes_mark (name : Name) : (d.mark marker hit).definedTypes.get? name
    = (d.definedTypes.get? name).map (markDeclaration marker hit) := by
  rw [definedTypes_mark, OrderedMap.get?_map]

/-- Marking keeps the named types and marks all declarations of each. -/
theorem types_mark :
    (d.mark marker hit).types = d.types.map fun _ t => t.mark marker hit := by
  apply OrderedMap.ext_entries
  simp only [types, definedTypes_mark, extensions_mark, OrderedMap.entries_map, List.map_map]
  refine List.map_congr_left fun e _ => ?_
  simp [NamedType.mark, List.filter_map, Function.comp_def]

/-- Marking marks every declaration of a type. -/
theorem typeDeclarations_mark : (d.mark marker hit).typeDeclarations
    = d.typeDeclarations.map (markDeclaration marker hit) := by
  simp only [typeDeclarations, definedTypes_mark, OrderedMap.values_map_const, extensions_mark,
    List.map_append]

/-- The definition that counts for a name has that name. -/
theorem name_of_get?_definedTypes {d : Document} {name : Name} {t : TypeDecl}
    (h : d.definedTypes.get? name = some t) : t.name = name := by
  obtain ⟨u, -, hu⟩ := List.mem_map.1 (OrderedMap.mem_of_get?_ofList _ _ _ h)
  rw [Prod.mk.injEq] at hu
  rw [← hu.2, hu.1]

/-- The definitions that count are those that their names have. -/
theorem mem_values_definedTypes_iff {d : Document} {t : TypeDecl} :
    t ∈ d.definedTypes.values ↔ d.definedTypes.get? t.name = some t := by
  rw [OrderedMap.mem_values_iff]
  constructor
  · rintro ⟨name, h⟩
    rw [name_of_get?_definedTypes h]
    exact h
  · exact fun h => ⟨t.name, h⟩

/-! ## Declarations of named types -/

/-- A named type is its definition with the extensions of that name. -/
theorem get?_types (d : Document) (name : Name) : d.types.get? name
    = (d.definedTypes.get? name).map fun definition =>
      ⟨definition, d.extensions.filter fun e => e.name == name⟩ :=
  OrderedMap.get?_map _ _ name

/-- A type is named exactly if it is defined. -/
theorem mem_keys_types (d : Document) (name : Name) :
    name ∈ d.types.keys ↔ name ∈ d.definedTypes.keys := by
  rw [types, OrderedMap.keys_map]

/-- The declarations of a defined type are the declarations of the document with its name. -/
theorem mem_declarations_iff {d : Document} {name : Name} {t : NamedType}
    (ht : d.types.get? name = some t) (u : TypeDecl) :
    u ∈ t.declarations ↔ u ∈ d.typeDeclarations ∧ u.name = name := by
  rw [get?_types] at ht
  obtain ⟨definition, hdefinition, rfl⟩ := Option.map_eq_some_iff.1 ht
  simp only [NamedType.declarations, typeDeclarations, List.mem_cons, List.mem_append,
    List.mem_filter, beq_iff_eq]
  constructor
  · rintro (rfl | ⟨hu, hname⟩)
    · have hvalue := (OrderedMap.mem_values_iff _ _).2 ⟨name, hdefinition⟩
      exact ⟨Or.inl hvalue, name_of_get?_definedTypes hdefinition⟩
    · exact ⟨Or.inr hu, hname⟩
  · rintro ⟨hu | hu, hname⟩
    · -- Of the definitions of a name only one counts.
      rw [mem_values_definedTypes_iff, hname, hdefinition, Option.some.injEq] at hu
      exact Or.inl hu.symm
    · exact Or.inr ⟨hu, hname⟩

/-- All declarations of a named type have its name. -/
theorem name_of_mem_declarations {d : Document} {name : Name} {t : NamedType}
    (h : (name, t) ∈ d.types.entries) : ∀ u ∈ t.declarations, u.name = name := by
  intro u hu
  exact ((mem_declarations_iff ((OrderedMap.get?_eq_some_iff _ _ _).2 h) u).1 hu).2

end Document

/-! ## Marking twice -/

section Twice

variable (a b : Coordinate → Bool)

private theorem markArgument_comp_markArgument (type field : Name) :
    markArgument marker b type field ∘ markArgument marker a type field
      = markArgument marker (fun c => a c || b c) type field := by
  funext v
  simp only [Function.comp_apply, markArgument, markIf_markIf]

private theorem markField_comp_markField (type : Name) :
    markField marker b type ∘ markField marker a type
      = markField marker (fun c => a c || b c) type := by
  funext f
  simp only [Function.comp_apply, markField, markIf_markIf, List.map_map,
    markArgument_comp_markArgument]

private theorem markInputField_comp_markInputField (type : Name) :
    markInputField marker b type ∘ markInputField marker a type
      = markInputField marker (fun c => a c || b c) type := by
  funext v
  simp only [Function.comp_apply, markInputField, markIf_markIf]

private theorem markEnumValue_comp_markEnumValue (type : Name) :
    markEnumValue marker b type ∘ markEnumValue marker a type
      = markEnumValue marker (fun c => a c || b c) type := by
  funext v
  simp only [Function.comp_apply, markEnumValue, markIf_markIf]

private theorem markBody_markBody (type : Name) (body : TypeBody) :
    markBody marker b type (markBody marker a type body)
      = markBody marker (fun c => a c || b c) type body := by
  cases body with
  | scalar => rfl
  | union members => rfl
  | object interfaces fields =>
    simp only [markBody, List.map_map, markField_comp_markField]
  | interface interfaces fields =>
    simp only [markBody, List.map_map, markField_comp_markField]
  | enum values => simp only [markBody, List.map_map, markEnumValue_comp_markEnumValue]
  | inputObject fields =>
    simp only [markBody, List.map_map, markInputField_comp_markInputField]

/-- A declaration that is marked twice. -/
theorem markDeclaration_markDeclaration (t : TypeDecl) :
    markDeclaration marker b (markDeclaration marker a t)
      = markDeclaration marker (fun c => a c || b c) t := by
  simp only [markDeclaration, markIf_markIf, markBody_markBody]

/-- Marking twice is marking where either test holds. -/
theorem Document.mark_mark (d : Document) :
    (d.mark marker a).mark marker b = d.mark marker fun c => a c || b c := by
  simp only [Document.mark, List.map_map]
  congr 1
  refine List.map_congr_left fun x _ => ?_
  cases x <;> simp [markDefinition, markDeclaration_markDeclaration]

/-- Marking elements that were marked before changes nothing. -/
theorem Document.mark_mark_of_imp {d : Document} {marker : Name} {a b : Coordinate → Bool}
    (h : ∀ c, b c = true → a c = true) :
    (d.mark marker a).mark marker b = d.mark marker a := by
  rw [mark_mark]
  congr 1
  funext c
  cases hb : b c with
  | false => rw [Bool.or_false]
  | true => rw [h c hb, Bool.or_true]

end Twice

/-! ## Marking types only -/

/-- A test that no member and no argument passes. -/
def TypesOnly (hit : Coordinate → Bool) : Prop := ∀ c, hit c = true → c.isType = true

variable {hit}

theorem TypesOnly.eq_false (h : TypesOnly hit) {c : Coordinate} (hc : c.isType = false) :
    hit c = false := by
  cases hhit : hit c with
  | false => rfl
  | true =>
    rw [h c hhit] at hc
    cases hc

theorem TypesOnly.member (h : TypesOnly hit) (t m : Name) : hit (.member t m) = false :=
  h.eq_false rfl

theorem TypesOnly.argument (h : TypesOnly hit) (t m a : Name) : hit (.argument t m a) = false :=
  h.eq_false rfl

/-- Where only types are marked, the bodies of declarations stay as they are. -/
theorem markBody_of_typesOnly (h : TypesOnly hit) (type : Name) (b : TypeBody) :
    markBody marker hit type b = b := by
  have hargument : ∀ field, markArgument marker hit type field = id := by
    intro field
    funext v
    simp [markArgument, h.argument]
  have hfield : markField marker hit type = id := by
    funext f
    simp [markField, h.member, hargument]
  have hinput : markInputField marker hit type = id := by
    funext v
    simp [markInputField, h.member]
  have hvalue : markEnumValue marker hit type = id := by
    funext v
    simp [markEnumValue, h.member]
  cases b <;> simp [markBody, hfield, hinput, hvalue]

/-! ## Marking by tests that agree -/

/-- Of a test only matters what it says about the type that is declared. -/
theorem markDeclaration_congr {a b : Coordinate → Bool} {t : TypeDecl}
    (h : ∀ c, c.typeName = t.name → a c = b c) :
    markDeclaration marker a t = markDeclaration marker b t := by
  have hargument : ∀ field, markArgument marker a t.name field
      = markArgument marker b t.name field := by
    intro field
    funext v
    simp only [markArgument, h (.argument _ _ _) rfl]
  have hfield : markField marker a t.name = markField marker b t.name := by
    funext f
    simp only [markField, h (.member _ _) rfl, hargument]
  have hinput : markInputField marker a t.name = markInputField marker b t.name := by
    funext v
    simp only [markInputField, h (.member _ _) rfl]
  have hvalue : markEnumValue marker a t.name = markEnumValue marker b t.name := by
    funext v
    simp only [markEnumValue, h (.member _ _) rfl]
  have hbody : markBody marker a t.name t.body = markBody marker b t.name t.body := by
    cases t.body <;> simp only [markBody, hfield, hinput, hvalue]
  simp only [markDeclaration, h (.type _) rfl, hbody]

/-- Of a test only matters for a member what it says about members and arguments. -/
theorem Member.mark_congr {a b : Coordinate → Bool} (h : ∀ c, c.isType = false → a c = b c)
    (type : Name) (m : Member) : m.mark marker a type = m.mark marker b type := by
  have hargument : markArgument marker a type m.name = markArgument marker b type m.name := by
    funext v
    simp only [markArgument, h (.argument _ _ _) rfl]
  simp only [Member.mark, h (.member _ _) rfl, hargument]

/-- A declaration in which nothing is marked stays as it is. -/
theorem markDeclaration_of_spared {t : TypeDecl}
    (h : ∀ c, c.typeName = t.name → hit c = false) : markDeclaration marker hit t = t := by
  have hnone : TypesOnly fun _ => false := fun _ h => nomatch h
  rw [markDeclaration_congr marker (b := fun _ => false) h, markDeclaration,
    markBody_of_typesOnly marker hnone]
  rfl

/-- Marking nothing changes nothing. -/
theorem Document.mark_none (d : Document) : (d.mark marker fun _ => false) = d := by
  obtain ⟨definitions⟩ := d
  simp only [Document.mark]
  congr 1
  rw [List.map_congr_left (g := id), List.map_id]
  intro x _
  cases x <;> simp [markDefinition, markDeclaration_of_spared]

end SchemaView
