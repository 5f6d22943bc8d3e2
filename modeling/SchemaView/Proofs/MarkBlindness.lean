import SchemaView.Contract.Exclusion
import SchemaView.Proofs.Marking

/-!
# What does not see marks

A marker has no arguments, and whatever this library reads off a directive it reads off an
argument. So tags, owners and the choice of what a rule hides are the same before and after
marking, whatever the marker is called: it may share its name with the tag directive or with a
directive that names owners.

## Key results

- `filterMap_usesOf_markIf`: what is read off the arguments of a directive survives marking
- `tags_mark`, `ownership_mark`, `exclusions_mark`: the three extractions
-/

namespace SchemaView

open Sdl

variable (marker : Name) (hit : Coordinate → Bool)

/-! ## Reading the arguments of directives -/

/-- Of a marker nothing can be read, so marking changes nothing about what is read off the uses
    of a directive. -/
theorem filterMap_usesOf_markIf {β : Type} (f : Directive → Option β) (hf : f ⟨marker, []⟩ = none)
    (name : Name) (condition : Bool) (ds : List Directive) :
    (usesOf name (markIf condition marker ds)).filterMap f = (usesOf name ds).filterMap f := by
  rcases markIf_eq_or marker condition ds with h | h
  · rw [h]
  · rw [h, usesOf, List.filter_append, List.filterMap_append, ← usesOf]
    -- Of the new uses there is the marker at most, and nothing is read off it.
    have hmarker : (List.filter (fun d => d.name == name) [(⟨marker, []⟩ : Directive)]).filterMap f
        = [] := by
      rw [List.filterMap_eq_nil_iff]
      intro d hd
      obtain rfl := List.mem_singleton.1 (List.mem_filter.1 hd).1
      exact hf
    rw [hmarker, List.append_nil]

/-! ## Tags -/

@[simp] theorem tagsIn_markIf (tagDirective : Name) (condition : Bool) (ds : List Directive) :
    tagsIn tagDirective (markIf condition marker ds) = tagsIn tagDirective ds :=
  filterMap_usesOf_markIf marker _ rfl tagDirective condition ds

theorem recordTags_mark (tagDirective : Name) (tags : TagMap) (s : Site) :
    recordTags tagDirective tags (s.mark marker hit) = recordTags tagDirective tags s := by
  simp [recordTags, Site.mark]

/-- The sites of a marked type are its marked sites. -/
theorem NamedType.sites_mark (t : NamedType) :
    (t.mark marker hit).declarations.flatMap sitesOf
      = (t.declarations.flatMap sitesOf).map (Site.mark marker hit) := by
  simp only [NamedType.declarations, NamedType.mark, List.flatMap_cons, List.map_append,
    List.flatMap_map, sitesOf_markDeclaration, List.map_flatMap]

namespace Document

variable (d : Document)

@[simp] theorem tagDirective_mark (default : Name) :
    (d.mark marker hit).tagDirective default = d.tagDirective default := by
  simp [tagDirective]

/-- Marking does not change the tags of a document. -/
theorem tagsBy_mark (tagDirective : Name) :
    (d.mark marker hit).tagsBy tagDirective = d.tagsBy tagDirective := by
  simp only [tagsBy, types_mark, OrderedMap.values_map_const, List.flatMap_map,
    NamedType.sites_mark, ← List.map_flatMap, List.foldl_map, recordTags_mark]

/-- Marking does not change the tags of a document, however they are looked for. -/
theorem tags_mark (tagDirective : Option Name) :
    (d.mark marker hit).tags tagDirective = d.tags tagDirective := by
  cases tagDirective <;> simp [tags, tagsBy_mark]

end Document

/-! ## Owners -/

@[simp] theorem namedOwners_markIf (symbols : GraphSymbols) (directive : Name)
    (element : Coordinate) (condition : Bool) (ds : List Directive) :
    namedOwners symbols directive element (markIf condition marker ds)
      = namedOwners symbols directive element ds := by
  unfold namedOwners
  rw [filterMap_usesOf_markIf marker (wordArgument? "graph") rfl]

@[simp] theorem subgraphOf?_markEnumValue (type : Name) (v : EnumValue) :
    subgraphOf? (markEnumValue marker hit type v) = subgraphOf? v := by
  unfold subgraphOf? markEnumValue
  -- The first name that is found is the head of all that are read.
  rw [← List.head?_filterMap, ← List.head?_filterMap]
  simp only [filterMap_usesOf_markIf marker (textArgument? "name") rfl]

@[simp] theorem memberDirective_markBody (type : Name) (b : TypeBody) :
    memberDirective (markBody marker hit type b) = memberDirective b := by
  cases b <;> rfl

private theorem memberOwners_mark (symbols : GraphSymbols) (t : TypeDecl) (owners : NameSet)
    (m : Member) :
    memberOwners symbols (markDeclaration marker hit t) owners (m.mark marker hit t.name)
      = memberOwners symbols t owners m := by
  simp [memberOwners, Member.mark]

theorem typeOwnership_markDeclaration (symbols : GraphSymbols) (t : TypeDecl) :
    typeOwnership symbols (markDeclaration marker hit t) = typeOwnership symbols t := by
  simp only [typeOwnership, markDeclaration_name, markDeclaration_directives,
    markDeclaration_body, namedOwners_markIf, membersOf_markBody, List.mapM_map,
    Function.comp_def, memberOwners_mark]

namespace Document

variable (d : Document)

/-- Marking does not change what the graph symbols stand for. -/
theorem graphSymbols_mark : (d.mark marker hit).graphSymbols = d.graphSymbols := by
  simp only [graphSymbols, graphValues, get?_definedTypes_mark]
  cases d.definedTypes.get? graphEnum with
  | none => rfl
  | some t =>
    obtain ⟨description, name, directives, body⟩ := t
    -- Symbols are read off an enum alone, and of its values no more than arguments and names.
    cases body with
    | enum values =>
      have hvalues : (values.map (markEnumValue marker hit name)).map
          (fun v => (v.name, subgraphOf? v)) = values.map fun v => (v.name, subgraphOf? v) := by
        rw [List.map_map]
        refine List.map_congr_left fun v _ => ?_
        simp only [Function.comp_apply, subgraphOf?_markEnumValue]
        rfl
      exact congrArg (fun entries => Except.ok (OrderedMap.ofList entries)) hvalues
    | scalar | object _ _ | interface _ _ | union _ | inputObject _ => rfl

/-- Marking does not change who owns what, nor whether that can be found out. -/
theorem ownership_mark : (d.mark marker hit).ownership = d.ownership := by
  simp only [ownership, graphSymbols_mark, definedTypes_mark, OrderedMap.values_map_const,
    List.mapM_map, Function.comp_def, typeOwnership_markDeclaration]

end Document

/-! ## What a rule hides -/

/-- The members of a marked type are its marked members. -/
theorem NamedType.members_mark {name : Name} {t : NamedType}
    (h : ∀ u ∈ t.declarations, u.name = name) :
    (t.mark marker hit).members = t.members.map (Member.mark marker hit name) := by
  simp only [members, declarations_mark, List.flatMap_map, markDeclaration_body,
    membersOf_markBody, List.map_flatMap]
  rw [List.flatMap_def, List.flatMap_def, List.map_congr_left]
  intro u hu
  rw [h u hu]

@[simp] theorem isMemberless_markBody (type : Name) (b : TypeBody) :
    isMemberless (markBody marker hit type b) = isMemberless b := by
  cases b <;> rfl

private theorem firstDeclarations_mark (type : Name) (ms : List Member) :
    firstDeclarations (ms.map (Member.mark marker hit type))
      = (firstDeclarations ms).map (Member.mark marker hit type) := by
  induction ms with
  | nil => rfl
  | cons m ms ih =>
    simp only [List.map_cons, firstDeclarations, ih, List.filter_map]
    rfl

namespace Filter

/-- Where the types of a document are changed one by one, and two filters hide the same of a type
    before and after its change, they hide the same of the documents. -/
theorem exclusions_congr {f g : Filter} {d e : Document} {change : NamedType → NamedType}
    (htypes : e.types = d.types.map fun _ t => change t)
    (h : ∀ entry ∈ d.types.entries,
      f.typeExclusions entry.1 (change entry.2) = g.typeExclusions entry.1 entry.2)
    (skip : NameSet) : f.exclusions e skip = g.exclusions d skip := by
  have hkept : ∀ entry ∈ d.types.entries.filter (fun entry => !decide (entry.1 ∈ skip)),
      f.typeExclusions entry.1 (change entry.2) = g.typeExclusions entry.1 entry.2 := by
    intro entry hentry
    exact h entry (List.mem_filter.1 hentry).1
  have hlist : (d.types.entries.filter fun entry => !decide (entry.1 ∈ skip)).flatMap
        (fun entry => f.typeExclusions entry.1 (change entry.2))
      = (d.types.entries.filter fun entry => !decide (entry.1 ∈ skip)).flatMap
        (fun entry => g.typeExclusions entry.1 entry.2) := by
    rw [List.flatMap_def, List.flatMap_def, List.map_congr_left hkept]
  rw [exclusions, exclusions, htypes, OrderedMap.entries_map, List.filter_map, List.flatMap_map]
  exact congrArg OrderedMap.ofList hlist

variable (f : Filter)

/-- The members that are judged are the same, up to marks. -/
theorem judgedMembers_mark {name : Name} {t : NamedType}
    (h : ∀ u ∈ t.declarations, u.name = name) :
    f.judgedMembers name (t.mark marker hit)
      = (f.judgedMembers name t).map (Member.mark marker hit name) := by
  simp only [judgedMembers, NamedType.members_mark marker hit h, firstDeclarations_mark,
    List.filter_map]
  rfl

/-- Marking does not change why a type is hidden. -/
theorem typeReason?_mark {name : Name} {t : NamedType}
    (h : ∀ u ∈ t.declarations, u.name = name) :
    f.typeReason? name (t.mark marker hit) = f.typeReason? name t := by
  have hbody : isMemberless (t.mark marker hit).definition.body
      = isMemberless t.definition.body := isMemberless_markBody marker hit _ _
  simp only [typeReason?, judgedMembers_mark marker hit f h, hbody, List.all_map, List.isEmpty_map]
  rfl

/-- Marking does not change what is hidden of a type. -/
theorem typeExclusions_mark {name : Name} {t : NamedType}
    (h : ∀ u ∈ t.declarations, u.name = name) :
    f.typeExclusions name (t.mark marker hit) = f.typeExclusions name t := by
  simp only [typeExclusions, typeReason?_mark marker hit f h, judgedMembers_mark marker hit f h,
    List.flatMap_map, List.map_map]
  simp only [Member.mark, List.map_map, Function.comp_def, markArgument]

/-- Marking does not change what a rule hides. -/
theorem exclusions_mark (d : Document) (skip : NameSet) :
    f.exclusions (d.mark marker hit) skip = f.exclusions d skip := by
  apply exclusions_congr (Document.types_mark marker hit d)
  -- The declarations of a type have its name only where they are an entry.
  intro entry hentry
  exact typeExclusions_mark marker hit f (Document.name_of_mem_declarations hentry)

end Filter

end SchemaView
