import SchemaView.Proofs.Marking
import SchemaView.Proofs.DefinitionOrder
import SchemaView.Proofs.UndefinedReferences

/-!
# Documents without extensions of types

An extension of a type can be written into the definition of the type: its directives behind those
of the definition, and what it declares behind what the definition declares. `Document.folded` does
so with all extensions, in the order of the text. This file gives the views on the folded document
in terms of those on the source.

Extensions that extend nothing, or a type of another kind, cannot be written into a definition.
Documents without such extensions are those that satisfy `Document.ExtensionsFit`.

## Key results

- `NamedType.part_folded`: what a folded definition declares, for every part of declarations
- `Document.types_folded`: the types of a folded document
- `Document.leadsTo_folded_iff`, `Document.resolves_folded_iff`: its references
-/

namespace SchemaView

open Sdl

/-! ## Folding extensions into a definition -/

/-- What a body declares, followed by what another body of the same kind declares. -/
def Sdl.TypeBody.append : TypeBody → TypeBody → TypeBody
  | .object interfaces fields, .object interfaces' fields' =>
    .object (interfaces ++ interfaces') (fields ++ fields')
  | .interface interfaces fields, .interface interfaces' fields' =>
    .interface (interfaces ++ interfaces') (fields ++ fields')
  | .union members, .union members' => .union (members ++ members')
  | .enum values, .enum values' => .enum (values ++ values')
  | .inputObject fields, .inputObject fields' => .inputObject (fields ++ fields')
  | body, _ => body

/-- A definition with the directives and the declarations of an extension at the end. -/
def Sdl.TypeDecl.extendedBy (t u : TypeDecl) : TypeDecl :=
  { t with directives := t.directives ++ u.directives, body := t.body.append u.body }

/-- The definition of a type with all its extensions written into it. -/
def NamedType.folded (t : NamedType) : TypeDecl :=
  t.extensions.foldl TypeDecl.extendedBy t.definition

/-- What becomes of a definition when extensions of types are written into the definitions of the
    types that they extend. -/
def foldDefinition? (extensions : List TypeDecl) : Definition → Option Definition
  | .type t => some (.type (NamedType.folded ⟨t, extensions.filter fun e => e.name == t.name⟩))
  | .typeExtension _ => none
  | x => some x

/-- The document with every extension of a type written into the definition of the type. -/
def Document.folded (d : Document) : Document :=
  ⟨d.definitions.filterMap (foldDefinition? d.extensions)⟩

/-- Every extension extends a defined type of its own kind. -/
def Document.ExtensionsFit (d : Document) : Prop :=
  ∀ u ∈ d.extensions,
    (d.definedTypes.get? u.name).map (fun t => t.body.kind) = some u.body.kind

instance (d : Document) : Decidable d.ExtensionsFit :=
  inferInstanceAs (Decidable (∀ u ∈ d.extensions,
    (d.definedTypes.get? u.name).map (fun t => t.body.kind) = some u.body.kind))

/-! ## Parts of declarations -/

/-- A list that is read off bodies, such as the fields, is that of both bodies one after the other
    where a body of the same kind is appended. -/
def Appends {α : Type u} (part : TypeBody → List α) : Prop :=
  ∀ a b : TypeBody, a.kind = b.kind → part (a.append b) = part a ++ part b

theorem membersOf_appends : Appends membersOf := by
  intro a b hkind
  cases a <;> cases b <;> cases hkind <;> simp [membersOf, TypeBody.append]

theorem fieldsOf_appends : Appends fieldsOf := by
  intro a b hkind
  cases a <;> cases b <;> cases hkind <;> simp [fieldsOf, TypeBody.append]

theorem inputFieldsOf_appends : Appends inputFieldsOf := by
  intro a b hkind
  cases a <;> cases b <;> cases hkind <;> simp [inputFieldsOf, TypeBody.append]

theorem interfacesOf_appends : Appends interfacesOf := by
  intro a b hkind
  cases a <;> cases b <;> cases hkind <;> simp [interfacesOf, TypeBody.append]

theorem unionMembersOf_appends : Appends unionMembersOf := by
  intro a b hkind
  cases a <;> cases b <;> cases hkind <;> simp [unionMembersOf, TypeBody.append]

@[simp] theorem kind_append (a b : TypeBody) : (a.append b).kind = a.kind := by
  cases a <;> cases b <;> rfl

namespace NamedType

/-- All extensions of a type have the kind of its definition. -/
def Fits (t : NamedType) : Prop := ∀ u ∈ t.extensions, u.body.kind = t.definition.body.kind

variable {t : NamedType}

/-! ## Folded definitions -/

@[simp] theorem name_folded (t : NamedType) : t.folded.name = t.definition.name := by
  obtain ⟨definition, extensions⟩ := t
  induction extensions generalizing definition with
  | nil => rfl
  | cons u us ih => exact ih (definition.extendedBy u)

@[simp] theorem kind_folded (t : NamedType) : t.folded.body.kind = t.definition.body.kind := by
  obtain ⟨definition, extensions⟩ := t
  induction extensions generalizing definition with
  | nil => rfl
  | cons u us ih => exact (ih (definition.extendedBy u)).trans (kind_append _ _)

/-- A folded definition carries the directives of all declarations. -/
theorem directives_folded (t : NamedType) :
    t.folded.directives = t.declarations.flatMap TypeDecl.directives := by
  obtain ⟨definition, extensions⟩ := t
  induction extensions generalizing definition with
  | nil => simp [folded, declarations]
  | cons u us ih =>
    have h := ih (definition.extendedBy u)
    simpa [folded, declarations, TypeDecl.extendedBy] using h

/-- A folded definition declares what all declarations declare, part by part. -/
theorem part_folded {α : Type u} {part : TypeBody → List α} (hpart : Appends part)
    (h : t.Fits) : part t.folded.body = t.declarations.flatMap fun u => part u.body := by
  obtain ⟨definition, extensions⟩ := t
  -- The induction is on the extensions that are left, the definition grows with each.
  induction extensions generalizing definition with
  | nil => simp [folded, declarations]
  | cons u us ih =>
    have hkind : definition.body.kind = u.body.kind := (h u List.mem_cons_self).symm
    have hrest : Fits ⟨definition.extendedBy u, us⟩ := by
      intro v hv
      exact (h v (List.mem_cons_of_mem _ hv)).trans (kind_append _ _).symm
    have happend := hpart definition.body u.body hkind
    have hfolded := ih (definition.extendedBy u) hrest
    simpa [folded, declarations, TypeDecl.extendedBy, happend] using hfolded

theorem mem_part_folded_iff {α : Type u} {part : TypeBody → List α} (hpart : Appends part)
    (h : t.Fits) {x : α} :
    x ∈ part t.folded.body ↔ ∃ u ∈ t.declarations, x ∈ part u.body := by
  rw [part_folded hpart h, List.mem_flatMap]

/-- Folding keeps the members of a type. -/
theorem members_folded (h : t.Fits) : members ⟨t.folded, []⟩ = t.members := by
  simp [members, declarations, part_folded membersOf_appends h]

/-- All declarations of a type have the kind of the folded definition. -/
theorem kind_of_mem_declarations (h : t.Fits) {u : TypeDecl} (hu : u ∈ t.declarations) :
    u.body.kind = t.folded.body.kind := by
  rw [kind_folded]
  cases List.mem_cons.1 hu with
  | inl hdefinition => rw [hdefinition]
  | inr hextension => exact h u hextension

/-- A folded definition refers to the types to which the declarations refer. -/
theorem refersTo_folded_iff (h : t.Fits) {ignore : Option Name} {target : Name} :
    RefersTo ignore t.folded.body target ↔ ∃ u ∈ t.declarations, RefersTo ignore u.body target := by
  constructor
  · intro hrefers
    cases hrefers with
    | field hf hopen =>
      obtain ⟨u, hu, hf⟩ := (mem_part_folded_iff fieldsOf_appends h).1 hf
      exact ⟨u, hu, .field hf hopen⟩
    | argument hf hopen ha hopen' =>
      obtain ⟨u, hu, hf⟩ := (mem_part_folded_iff fieldsOf_appends h).1 hf
      exact ⟨u, hu, .argument hf hopen ha hopen'⟩
    | inputField hv hopen =>
      obtain ⟨u, hu, hv⟩ := (mem_part_folded_iff inputFieldsOf_appends h).1 hv
      exact ⟨u, hu, .inputField hv hopen⟩
    | unionMember hm =>
      obtain ⟨u, hu, hm⟩ := (mem_part_folded_iff unionMembersOf_appends h).1 hm
      exact ⟨u, hu, .unionMember hm⟩
    | interface hi =>
      obtain ⟨u, hu, hi⟩ := (mem_part_folded_iff interfacesOf_appends h).1 hi
      exact ⟨u, hu, .interface hi⟩
  · intro hdeclared
    obtain ⟨u, hu, hrefers⟩ := hdeclared
    cases hrefers with
    | field hf hopen =>
      exact .field ((mem_part_folded_iff fieldsOf_appends h).2 ⟨u, hu, hf⟩) hopen
    | argument hf hopen ha hopen' =>
      exact .argument ((mem_part_folded_iff fieldsOf_appends h).2 ⟨u, hu, hf⟩) hopen ha hopen'
    | inputField hv hopen =>
      exact .inputField ((mem_part_folded_iff inputFieldsOf_appends h).2 ⟨u, hu, hv⟩) hopen
    | unionMember hm =>
      exact .unionMember ((mem_part_folded_iff unionMembersOf_appends h).2 ⟨u, hu, hm⟩)
    | interface hi =>
      exact .interface ((mem_part_folded_iff interfacesOf_appends h).2 ⟨u, hu, hi⟩)

end NamedType

namespace Document

variable {d : Document}

/-! ## Views on a folded document -/

@[simp] theorem extensions_folded (d : Document) : d.folded.extensions = [] := by
  rw [extensions, folded, List.filterMap_filterMap, List.filterMap_eq_nil_iff]
  intro x _
  cases x <;> rfl

@[simp] theorem schemaDeclarations_folded (d : Document) :
    d.folded.schemaDeclarations = d.schemaDeclarations := by
  rw [schemaDeclarations, schemaDeclarations, folded, List.filterMap_filterMap]
  congr 1
  funext x
  cases x <;> rfl

/-- Every definition that counts has the extensions of its name written into it. -/
theorem definedTypes_folded (d : Document) : d.folded.definedTypes
    = d.definedTypes.map fun name t =>
        NamedType.folded ⟨t, d.extensions.filter fun e => e.name == name⟩ := by
  let fold (t : TypeDecl) : TypeDecl :=
    NamedType.folded ⟨t, d.extensions.filter fun e => e.name == t.name⟩
  have hdefinitions : d.folded.definitions.filterMap typeDefinition?
      = (d.definitions.filterMap typeDefinition?).map fold := by
    rw [folded, List.filterMap_filterMap, List.map_filterMap]
    congr 1
    funext x
    cases x <;> rfl
  rw [definedTypes, definedTypes, hdefinitions, OrderedMap.map_ofList]
  simp [fold, Function.comp_def]

/-- The types of a folded document are the folded types, without extensions. -/
theorem types_folded (d : Document) :
    d.folded.types = d.types.map fun _ t => ⟨t.folded, []⟩ := by
  apply OrderedMap.ext_entries
  simp [types, definedTypes_folded, Function.comp_def]

theorem get?_types_folded_eq_some_iff {n : Name} {t : NamedType} :
    d.folded.types.get? n = some t ↔
      ∃ source, d.types.get? n = some source ∧ t = ⟨source.folded, []⟩ := by
  rw [types_folded, OrderedMap.get?_map, Option.map_eq_some_iff]
  simp only [eq_comm]

theorem get?_definedTypes_folded (d : Document) (n : Name) :
    d.folded.definedTypes.get? n = (d.types.get? n).map NamedType.folded := by
  rw [definedTypes_folded, OrderedMap.get?_map, get?_types, Option.map_map]
  rfl

@[simp] theorem keys_definedTypes_folded (d : Document) :
    d.folded.definedTypes.keys = d.definedTypes.keys := by
  rw [definedTypes_folded, OrderedMap.keys_map]

@[simp] theorem contains_definedTypes_folded (d : Document) (name : Name) :
    d.folded.definedTypes.contains name = d.definedTypes.contains name := by
  rw [definedTypes_folded, OrderedMap.contains_map]

@[simp] theorem roots_folded (d : Document) : d.folded.roots = d.roots := by
  simp [roots, declaredRoots]

/-- In a document whose extensions fit, those of each type do. -/
theorem ExtensionsFit.fits (h : d.ExtensionsFit) {n : Name} {t : NamedType}
    (ht : d.types.get? n = some t) : t.Fits := by
  rw [get?_types] at ht
  obtain ⟨definition, hdefinition, rfl⟩ := Option.map_eq_some_iff.1 ht
  intro u hu
  obtain ⟨hextension, hname⟩ := List.mem_filter.1 hu
  have hname : u.name = n := beq_iff_eq.1 hname
  have hkind := h u hextension
  rw [hname, hdefinition, Option.map_some, Option.some.injEq] at hkind
  exact hkind.symm

theorem ExtensionsFit.not_extendsUndefined (h : d.ExtensionsFit) : ¬ d.ExtendsUndefined := by
  intro hundefined
  obtain ⟨u, hu, hnot⟩ := hundefined
  have hkind := h u hu
  rw [(OrderedMap.get?_eq_none_iff _ _).2 hnot] at hkind
  cases hkind

/-- Without extensions of undefined types, every declaration is one of a named type. -/
theorem exists_namedType_of_mem_typeDeclarations (h : ¬ d.ExtendsUndefined) {u : TypeDecl}
    (hu : u ∈ d.typeDeclarations) : ∃ n t, d.types.get? n = some t ∧ u ∈ t.declarations := by
  have hdefined : u.name ∈ d.definedTypes.keys := by
    cases List.mem_append.1 hu with
    | inl hvalue =>
      exact (OrderedMap.mem_keys_iff _ _).2 ⟨u, mem_values_definedTypes_iff.1 hvalue⟩
    | inr hextension =>
      exact Classical.byContradiction fun hnot => h ⟨u, hextension, hnot⟩
  obtain ⟨t, ht⟩ := (OrderedMap.mem_keys_iff _ _).1 ((d.mem_keys_types _).2 hdefined)
  exact ⟨u.name, t, ht, (mem_declarations_iff ht u).2 ⟨hu, rfl⟩⟩

/-! ## References of a folded document -/

variable {ignore : Option Name}

/-- Steps from type to type are the same in the folded document. -/
theorem leadsTo_folded_iff (h : d.ExtensionsFit) {source target : Name} :
    d.folded.LeadsTo ignore source target ↔ d.LeadsTo ignore source target := by
  constructor
  · intro hlead
    cases hlead with
    | refers ht hu hrefers hscalar =>
      obtain ⟨t, hsource, rfl⟩ := get?_types_folded_eq_some_iff.1 ht
      rw [List.mem_singleton.1 hu] at hrefers
      obtain ⟨v, hv, hrefers⟩ := (NamedType.refersTo_folded_iff (h.fits hsource)).1 hrefers
      exact .refers hsource hv hrefers hscalar
    | implementedBy ht hu hobject hi =>
      obtain ⟨t, hsource, rfl⟩ := get?_types_folded_eq_some_iff.1 ht
      rw [List.mem_singleton.1 hu] at hobject hi
      obtain ⟨v, hv, hi⟩ :=
        (NamedType.mem_part_folded_iff interfacesOf_appends (h.fits hsource)).1 hi
      -- Only objects stand for interfaces, and the declaration has the kind of the whole type.
      have hkind := NamedType.kind_of_mem_declarations (h.fits hsource) hv
      exact .implementedBy hsource hv (hkind.trans hobject) hi
  · intro hlead
    cases hlead with
    | refers ht hu hrefers hscalar =>
      have hfolded := (NamedType.refersTo_folded_iff (h.fits ht)).2 ⟨_, hu, hrefers⟩
      have htype := get?_types_folded_eq_some_iff.2 ⟨_, ht, rfl⟩
      exact .refers htype List.mem_cons_self hfolded hscalar
    | implementedBy ht hu hobject hi =>
      have hfolded :=
        (NamedType.mem_part_folded_iff interfacesOf_appends (h.fits ht)).2 ⟨_, hu, hi⟩
      have hkind := NamedType.kind_of_mem_declarations (h.fits ht) hu
      have htype := get?_types_folded_eq_some_iff.2 ⟨_, ht, rfl⟩
      exact .implementedBy htype List.mem_cons_self (hkind.symm.trans hobject) hfolded

/-- The folded document refers to an undefined type where the source does. -/
theorem refersToUndefined_folded_iff (h : d.ExtensionsFit) :
    d.folded.RefersToUndefined ignore ↔ d.RefersToUndefined ignore := by
  have hfolded : ¬ d.folded.ExtendsUndefined := by simp [ExtendsUndefined]
  constructor
  · intro hundefined
    obtain ⟨u, hu, target, hrefers, hscalar, hnot⟩ := hundefined
    obtain ⟨n, t, ht, hu⟩ := exists_namedType_of_mem_typeDeclarations hfolded hu
    obtain ⟨t, hsource, rfl⟩ := get?_types_folded_eq_some_iff.1 ht
    rw [List.mem_singleton.1 hu] at hrefers
    obtain ⟨v, hv, hrefers⟩ := (NamedType.refersTo_folded_iff (h.fits hsource)).1 hrefers
    have hdeclared : v ∈ d.typeDeclarations := ((mem_declarations_iff hsource v).1 hv).1
    rw [keys_definedTypes_folded] at hnot
    exact ⟨v, hdeclared, target, hrefers, hscalar, hnot⟩
  · intro hundefined
    obtain ⟨u, hu, target, hrefers, hscalar, hnot⟩ := hundefined
    obtain ⟨n, t, ht, hu⟩ := exists_namedType_of_mem_typeDeclarations h.not_extendsUndefined hu
    have hrefers := (NamedType.refersTo_folded_iff (h.fits ht)).2 ⟨u, hu, hrefers⟩
    have htype := get?_types_folded_eq_some_iff.2 ⟨t, ht, rfl⟩
    have hdeclared : t.folded ∈ d.folded.typeDeclarations :=
      ((mem_declarations_iff htype t.folded).1 List.mem_cons_self).1
    rw [← keys_definedTypes_folded] at hnot
    exact ⟨t.folded, hdeclared, target, hrefers, hscalar, hnot⟩

/-- All types to which the folded document refers are there exactly if those are to which the source
    refers. -/
theorem resolves_folded_iff (h : d.ExtensionsFit) :
    d.folded.Resolves ignore ↔ d.Resolves ignore := by
  have hfolded : ¬ d.folded.ExtendsUndefined := by simp [ExtendsUndefined]
  have hroots : d.folded.HasUndefinedRoot ↔ d.HasUndefinedRoot := by
    rw [HasUndefinedRoot, HasUndefinedRoot, roots_folded, keys_definedTypes_folded]
  rw [resolves_iff, resolves_iff, refersToUndefined_folded_iff h, hroots]
  simp only [hfolded, h.not_extendsUndefined]

/-! ## What a folded document reaches -/

/-- A list of directives from many elements is ignored if that of one of them is. -/
theorem isIgnored_flatMap_eq_false_iff {α : Type u} {xs : List α}
    {directives : α → List Directive} :
    isIgnored ignore (xs.flatMap directives) = false ↔
      ∀ x ∈ xs, isIgnored ignore (directives x) = false := by
  cases ignore with
  | none => simp [isIgnored]
  | some marker => simp [isIgnored, carries]

/-- A folded definition is ignored if one of the declarations is. -/
theorem definition_folded_iff {n : Name} :
    (∃ t, d.folded.definedTypes.get? n = some t ∧ isIgnored ignore t.directives = false) ↔
      ∃ t, d.types.get? n = some t ∧
        ∀ u ∈ t.declarations, isIgnored ignore u.directives = false := by
  simp only [get?_definedTypes_folded, Option.map_eq_some_iff]
  constructor
  · intro hfolded
    obtain ⟨_, ⟨t, ht, rfl⟩, hopen⟩ := hfolded
    rw [t.directives_folded, isIgnored_flatMap_eq_false_iff] at hopen
    exact ⟨t, ht, hopen⟩
  · intro hdeclared
    obtain ⟨t, ht, hopen⟩ := hdeclared
    rw [← isIgnored_flatMap_eq_false_iff, ← t.directives_folded] at hopen
    exact ⟨t.folded, ⟨t, ht, rfl⟩, hopen⟩

/-- What is derivable in the folded document is derivable in the source, where only definitions are
    ignored. -/
theorem Derivable.of_folded (h : d.ExtensionsFit) {start : Name → Prop} {n : Name}
    (hn : d.folded.Derivable ignore start n) : d.Derivable ignore start n := by
  apply hn.transfer fun _ _ => (leadsTo_folded_iff h).1
  intro n hn
  obtain ⟨t, ht, hopen⟩ := definition_folded_iff.1 hn.definition
  rw [get?_types] at ht
  obtain ⟨definition, hdefinition, rfl⟩ := Option.map_eq_some_iff.1 ht
  exact ⟨definition, hdefinition, hopen definition List.mem_cons_self⟩

/-- What is derivable in the source is derivable in the folded document, if no extension of a
    derivable type is ignored. -/
theorem Derivable.folded (h : d.ExtensionsFit) {start : Name → Prop}
    (hextensions : ∀ u ∈ d.extensions, d.Derivable ignore start u.name →
      isIgnored ignore u.directives = false)
    {n : Name} (hn : d.Derivable ignore start n) : d.folded.Derivable ignore start n := by
  apply hn.transfer fun _ _ => (leadsTo_folded_iff h).2
  intro n hn
  obtain ⟨definition, hdefinition, hopen⟩ := hn.definition
  have ht := d.get?_types n
  rw [hdefinition] at ht
  refine definition_folded_iff.2 ⟨_, ht, fun u hu => ?_⟩
  cases List.mem_cons.1 hu with
  | inl heq =>
    rw [heq]
    exact hopen
  | inr hu =>
    obtain ⟨hu, hname⟩ := List.mem_filter.1 hu
    exact hextensions u hu (beq_iff_eq.1 hname ▸ hn)

end Document

end SchemaView
