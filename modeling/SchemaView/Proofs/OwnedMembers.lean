import SchemaView.Proofs.CompileByText
import SchemaView.Proofs.DeclaredOwners
import SchemaView.Proofs.DeclaredTags
import SchemaView.Proofs.HiddenMembers
import SchemaView.Proofs.ReportCorrect

/-!
# Excluded members of owned types

Tags are collected from definitions and extensions, and so are the members that a rule judges, but
owners from definitions only. So with the owners that a supergraph declares, a member of an owned
type that has an excluded tag is hidden if the definition of the type declares it, and then it is
marked wherever it is declared. A member that only extensions declare has no owner, and is not
hidden whatever its tags are.

## Key results

- `members_compiled`: the members of a type in the contract are marked by the report
- `member_mem_compiled_iff`: which members a contract hides
- `compile_excluded_member`: which members with excluded tags it hides by the declared owners
-/

namespace SchemaView

open Sdl

namespace Document

variable {d : Document} {options : CompileOptions} {c : Compilation} {type name : Name}
  {t : NamedType}

/-- The members of a type in the contract are those of the source, marked by the report. -/
theorem members_compiled (h : d.compile options = .ok (.compiled c))
    (ht : d.types.get? type = some t) :
    ∃ u, c.document.types.get? type = some u ∧ u.members = t.members.map
      (Member.mark options.config.marker (fun e => decide (e ∈ c.exclusions.keys)) type) := by
  obtain ⟨-, kept, result, -, hrun, rfl⟩ := compile_eq_compiled_iff.1 h
  obtain ⟨hit, htypes, hdocument, -⟩ := cascadeFor_mark hrun
  refine ⟨t.mark options.config.marker (hiddenTest (d.selection options kept).keys hit), ?_, ?_⟩
  · rw [compiled_document hdocument, types_ensureMarkerFor, types_mark, OrderedMap.get?_map, ht]
    rfl
  · rw [NamedType.members_mark _ _
      (name_of_mem_declarations ((OrderedMap.get?_eq_some_iff _ _ _).1 ht))]
    -- On members and arguments, the test of the marking is what the report says.
    refine List.map_congr_left fun m _ => Member.mark_congr _ (fun e he => ?_) type m
    rw [Bool.eq_iff_iff, decide_eq_true_eq]
    exact hiddenTest_iff_mem_report htypes he

/-- A member that the report has is marked wherever the contract declares it. -/
theorem carries_of_mem_compiled (h : d.compile options = .ok (.compiled c))
    (ht : d.types.get? type = some t) (hmem : Coordinate.member type name ∈ c.exclusions.keys) :
    ∃ u, c.document.types.get? type = some u ∧
      ∀ m ∈ u.members, m.name = name → carries options.config.marker m.directives = true := by
  obtain ⟨u, hu, hmembers⟩ := members_compiled h ht
  refine ⟨u, hu, fun m hm hname => ?_⟩
  rw [hmembers] at hm
  obtain ⟨source, -, rfl⟩ := List.mem_map.1 hm
  subst hname
  have hsource : Coordinate.member type source.name ∈ c.exclusions.keys := hmem
  show carries _ (markIf (decide (Coordinate.member type source.name ∈ _)) _ _) = true
  rw [carries_markIf, decide_eq_true hsource, Bool.or_true]

/-- A contract hides the members of unprotected types that are declared, have an owner where owners
    count, and have tags by which the rule hides them. -/
theorem member_mem_compiled_iff (h : d.compile options = .ok (.compiled c)) :
    Coordinate.member type name ∈ c.exclusions.keys ↔ ¬ d.IsProtected options.config type ∧
      (∃ t, d.types.get? type = some t ∧ ∃ m ∈ t.members, m.name = name) ∧
      isOwned options.ownership (.member type name) = true ∧
      (options.rule.reason? ((options.tags.getD (d.filterTags options.config)).of
        (.member type name)) true).isSome = true := by
  obtain ⟨-, kept, result, hkept, -, rfl⟩ := compile_eq_compiled_iff.1 h
  have hkeys : Coordinate.member type name ∈ (d.assembled options kept result).exclusions.keys ↔
      Coordinate.member type name ∈ (d.selection options kept).keys := by
    show _ ∈ (withCascaded _ _).keys ↔ _
    rw [mem_keys_withCascaded]
    simp
  rw [hkeys, selection, Filter.member_mem_exclusions_iff, mem_protectedTypes hkept]
  rfl

/-- An excluded tag is a reason to hide an element. -/
theorem isSome_reason?_of_excluded {r : Rule} {tags : NameSet} {tag : String} (htag : tag ∈ tags)
    (hexcluded : tag ∈ r.excluded) : (r.reason? tags true).isSome = true :=
  (r.isSome_reason?_iff tags true).2 (Or.inl (NameSet.meets_iff.2 ⟨tag, htag, hexcluded⟩))

/-- Where a document is compiled by the owners that it declares itself, let a member of an unprotected
    type have an excluded tag in one of its declarations. If the definition of the type names a
    subgraph for the type and declares the member, the member is hidden, and marked wherever it is
    declared. A member that the definition does not declare is not hidden, if names can be parts of
    coordinates. -/
theorem compile_excluded_member (d : Document) (options : CompileOptions) {o : Ownership}
    (howners : d.ownership = .ok o) (ho : options.ownership = some o) (htags : options.tags = none)
    {c : Compilation} (h : d.compile options = .ok (.compiled c)) {type : Name} {t : NamedType}
    (ht : d.types.get? type = some t) (hprotected : ¬ d.IsProtected options.config type)
    {m : Member} (hm : m ∈ t.members) {tag : String}
    (htag : tag ∈ tagsIn (d.filterDirective options.config) m.directives)
    (hexcluded : tag ∈ options.rule.excluded) :
    (NamesSubgraph "join__type" t.definition.directives →
      (∃ first ∈ membersOf t.definition.body, first.name = m.name) →
      Coordinate.member type m.name ∈ c.exclusions.keys ∧
      ∃ u, c.document.types.get? type = some u ∧ ∀ declared ∈ u.members,
        declared.name = m.name → carries options.config.marker declared.directives = true) ∧
    (d.WellNamed → Coordinate.member type m.name ∈ c.exclusions.keys →
      ∃ first ∈ membersOf t.definition.body, first.name = m.name) := by
  have hdefinition : d.definedTypes.get? type = some t.definition := by
    rw [get?_types] at ht
    obtain ⟨definition, hdefinition, rfl⟩ := Option.map_eq_some_iff.1 ht
    exact hdefinition
  have hiff : Coordinate.member type m.name ∈ c.exclusions.keys ↔ _ := member_mem_compiled_iff h
  rw [ho, htags] at hiff
  constructor
  · rintro hsubgraph ⟨first, hfirst, hname⟩
    have howned : isOwned (some o) (.member type m.name) = true := by
      rw [← hname]
      exact isOwned_member_of_mem howners hdefinition hsubgraph hfirst
    have hreason := isSome_reason?_of_excluded
      ((mem_of_filterTags_member ht).2 ⟨m, hm, rfl, htag⟩) hexcluded
    have hkey := hiff.2 ⟨hprotected, ⟨t, ht, m, hm, rfl⟩, howned, hreason⟩
    exact ⟨hkey, carries_of_mem_compiled h ht hkey⟩
  · intro hnames hkey
    obtain ⟨-, -, howned, -⟩ := hiff.1 hkey
    have hmember := (hnames.judged ((OrderedMap.get?_eq_some_iff _ _ _).1 ht)).2 m hm
    obtain ⟨u, hu, hfirst⟩ := exists_mem_of_isOwned_member hnames hmember howners howned
    rw [hdefinition, Option.some.injEq] at hu
    rwa [← hu] at hfirst

end Document

/-! ## A shop that one subgraph owns -/

/-- A use of the directive that says which subgraph a type comes from. -/
def typeFrom (graph : Name) : Directive := ⟨"join__type", [⟨"graph", .enum graph⟩]⟩

/-- A supergraph whose only subgraph is a shop with an internal note. An extension of the shop adds
    an internal cost. -/
def extendedShop : Document := ⟨[
  .type ⟨none, graphEnum, [], .enum
    [⟨none, "SHOP", [⟨"join__graph", [⟨"name", .string ⟨"shop", false⟩⟩]⟩]⟩]⟩,
  .type ⟨none, "Query", [typeFrom "SHOP"], .object [] [⟨none, "shop", [], .named "Shop", []⟩]⟩,
  .type ⟨none, "Shop", [typeFrom "SHOP"], .object []
    [⟨none, "name", [], .named "String", []⟩,
     ⟨none, "note", [], .named "String", [tagUse "internal"]⟩]⟩,
  .typeExtension ⟨none, "Shop", [], .object []
    [⟨none, "cost", [], .named "Int", [tagUse "internal"]⟩]⟩]⟩

/-- The owners that the supergraph declares. -/
def extendedShopOwners : Ownership := extendedShop.ownership.toOption.getD .empty

/-- The arguments for its contract. -/
def withOwners : CompileOptions :=
  { withoutInternal with config := .default, ownership := some extendedShopOwners }

theorem extendedShop_unprotected : ¬ extendedShop.IsProtected withOwners.config "Shop" := by
  have hkept : extendedShop.protectedTypes withOwners.config = .ok composedTypes := rfl
  rw [← Document.mem_protectedTypes hkept]
  decide

/-- The note, which the definition declares, is hidden and marked. -/
theorem extendedShop_hides_note : ∃ c u, extendedShop.compile withOwners = .ok (.compiled c) ∧
    Coordinate.member "Shop" "note" ∈ c.exclusions.keys ∧
    c.document.types.get? "Shop" = some u ∧
    ∀ m ∈ u.members, m.name = "note" → carries defaultMarker m.directives = true := by
  have htag : "internal" ∈ tagsIn (extendedShop.filterDirective withOwners.config)
      [tagUse "internal"] := by decide
  obtain ⟨hhidden, -⟩ := Document.compile_excluded_member extendedShop withOwners
    (o := extendedShopOwners) rfl rfl rfl rfl
    (rfl : extendedShop.types.get? "Shop" = some _) extendedShop_unprotected
    (m := ⟨"note", [tagUse "internal"], some (.named "String"), []⟩)
    (List.mem_cons_of_mem _ List.mem_cons_self) htag (by decide)
  obtain ⟨hkey, u, hu, hmarked⟩ := hhidden (by decide) (by decide)
  exact ⟨_, u, rfl, hkey, hu, hmarked⟩

/-- The cost, which only the extension declares, stays visible although the shop is owned and the tag
    of the cost is excluded. -/
theorem extendedShop_leaks_cost : ∃ c t, extendedShop.ownership = .ok extendedShopOwners ∧
    extendedShop.compile withOwners = .ok (.compiled c) ∧
    ¬ extendedShop.IsProtected withOwners.config "Shop" ∧
    extendedShop.types.get? "Shop" = some t ∧
    NamesSubgraph "join__type" t.definition.directives ∧
    (∃ m ∈ t.members, m.name = "cost" ∧
      ∃ tag ∈ tagsIn (extendedShop.filterDirective withOwners.config) m.directives,
        tag ∈ withOwners.rule.excluded) ∧
    Coordinate.member "Shop" "cost" ∉ c.exclusions.keys :=
  ⟨_, _, rfl, rfl, extendedShop_unprotected, rfl, by decide, by decide, by decide +kernel⟩

end SchemaView
