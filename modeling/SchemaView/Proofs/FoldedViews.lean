import SchemaView.Proofs.ExtensionFolding
import SchemaView.Proofs.CompileFailures

/-!
# Extensions are part of their types

Tags, filtering and plain reachability handle extensions each in its own way: tags are collected
from all declarations of a type, a rule judges the members of all declarations, and the graph of
references has the mentions of extensions behind those of definitions. Each of them finds the same
in the document in which the extensions are written into the definitions.

The map of tags may list the elements in another order, because the directives of an extension move
in front of the members of the definition. What a rule hides is the same in the same order.

## Key results

- `NamedType.exists_site_folded_iff`: the tags at the sites of a folded definition
- `Document.get?_tags_folded`, `Document.exclusions_folded`, `Document.reachable_folded_iff`: the
  three views one by one
- `Document.views_folded`: all views together
-/

namespace SchemaView

open Sdl

/-! ## Tags -/

/-- The tags in the directives of many elements are those of each of them. -/
theorem mem_tagsIn_flatMap_iff {α : Type u} {name : Name} {tag : String} {xs : List α}
    {directives : α → List Directive} :
    tag ∈ tagsIn name (xs.flatMap directives) ↔ ∃ x ∈ xs, tag ∈ tagsIn name (directives x) := by
  simp only [tagsIn, usesOf, List.filter_flatMap, List.filterMap_flatMap, List.mem_flatMap]

namespace NamedType

variable {t : NamedType} {name : Name} {c : Coordinate} {tag : String}

/-- The sites of a folded definition have the tags of the sites of all declarations, element by
    element. -/
theorem exists_site_folded_iff (h : t.Fits)
    (hname : ∀ u ∈ t.declarations, u.name = t.definition.name) :
    (∃ s ∈ sitesOf t.folded, s.coordinate = c ∧ tag ∈ tagsIn name s.directives) ↔
      ∃ u ∈ t.declarations, ∃ s ∈ sitesOf u, s.coordinate = c ∧
        tag ∈ tagsIn name s.directives := by
  constructor
  · intro hfolded
    obtain ⟨s, hs, hc, htag⟩ := hfolded
    cases List.mem_cons.1 hs with
    | inl htype =>
      -- The directives of the type come from one of the declarations.
      subst htype
      rw [directives_folded] at htag
      obtain ⟨u, hu, htag⟩ := mem_tagsIn_flatMap_iff.1 htag
      have hcoordinate : Coordinate.type u.name = c := by
        rw [hname u hu, ← name_folded]
        exact hc
      exact ⟨u, hu, ⟨.type u.name, u.directives⟩, List.mem_cons_self, hcoordinate, htag⟩
    | inr hmember =>
      obtain ⟨m, hm, hs⟩ := List.mem_flatMap.1 hmember
      obtain ⟨u, hu, hm⟩ := (mem_part_folded_iff membersOf_appends h).1 hm
      rw [name_folded, ← hname u hu] at hs
      exact ⟨u, hu, s, List.mem_cons_of_mem _ (List.mem_flatMap.2 ⟨m, hm, hs⟩), hc, htag⟩
  · intro hdeclared
    obtain ⟨u, hu, s, hs, hc, htag⟩ := hdeclared
    cases List.mem_cons.1 hs with
    | inl htype =>
      subst htype
      have hfolded : tag ∈ tagsIn name t.folded.directives := by
        rw [directives_folded]
        exact mem_tagsIn_flatMap_iff.2 ⟨u, hu, htag⟩
      have hcoordinate : Coordinate.type t.folded.name = c := by
        rw [name_folded, ← hname u hu]
        exact hc
      exact ⟨_, List.mem_cons_self, hcoordinate, hfolded⟩
    | inr hmember =>
      obtain ⟨m, hm, hs⟩ := List.mem_flatMap.1 hmember
      have hm := (mem_part_folded_iff membersOf_appends h).2 ⟨u, hu, hm⟩
      rw [hname u hu, ← name_folded] at hs
      exact ⟨s, List.mem_cons_of_mem _ (List.mem_flatMap.2 ⟨m, hm, hs⟩), hc, htag⟩

end NamedType

namespace Document

variable {d : Document}

@[simp] theorem tagDirective_folded (d : Document) (default : Name) :
    d.folded.tagDirective default = d.tagDirective default := by
  simp [tagDirective]

/-- Folding extensions keeps the tags of every element. -/
theorem of_tagsBy_folded (h : d.ExtensionsFit) (name : Name) (c : Coordinate) :
    (d.folded.tagsBy name).of c = (d.tagsBy name).of c := by
  apply NameSet.ext
  intro tag
  rw [mem_of_tagsBy, mem_of_tagsBy, types_folded, OrderedMap.values_map_const]
  -- Type by type, the sites of the folded definition against those of the declarations.
  have hsites : ∀ t ∈ d.types.values,
      (∃ s ∈ sitesOf t.folded, s.coordinate = c ∧ tag ∈ tagsIn name s.directives) ↔
        ∃ u ∈ t.declarations, ∃ s ∈ sitesOf u, s.coordinate = c ∧
          tag ∈ tagsIn name s.directives := by
    intro t ht
    obtain ⟨n, ht⟩ := (OrderedMap.mem_values_iff _ _).1 ht
    have hdefinition := ((mem_declarations_iff ht t.definition).1 List.mem_cons_self).2
    have hname : ∀ u ∈ t.declarations, u.name = t.definition.name := by
      intro u hu
      rw [((mem_declarations_iff ht u).1 hu).2, hdefinition]
    exact NamedType.exists_site_folded_iff (h.fits ht) hname
  constructor
  · intro hfolded
    obtain ⟨_, hvalue, u, hu, hs⟩ := hfolded
    obtain ⟨t, ht, rfl⟩ := List.mem_map.1 hvalue
    rw [List.mem_singleton.1 hu] at hs
    exact ⟨t, ht, (hsites t ht).1 hs⟩
  · intro hsource
    obtain ⟨t, ht, hdeclared⟩ := hsource
    exact ⟨_, List.mem_map_of_mem ht, t.folded, List.mem_cons_self, (hsites t ht).2 hdeclared⟩

/-- Folding extensions keeps which elements are listed with tags, and with which ones. -/
theorem get?_tags_folded (h : d.ExtensionsFit) (tagDirective : Option Name) (c : Coordinate) :
    (d.folded.tags tagDirective).get? c = (d.tags tagDirective).get? c := by
  have hby : ∀ name, (d.folded.tagsBy name).get? c = (d.tagsBy name).get? c := by
    intro name
    exact get?_tagsBy_congr (of_tagsBy_folded h name c)
  cases tagDirective <;> simp only [tags, tagDirective_folded, hby]

/-- Folding extensions keeps the tags that elements have, also where they have none. -/
theorem of_tags_folded (h : d.ExtensionsFit) (tagDirective : Option Name) (c : Coordinate) :
    (d.folded.tags tagDirective).of c = (d.tags tagDirective).of c := by
  rw [TagMap.of, TagMap.of, get?_tags_folded h]

end Document

/-! ## Filtering -/

/-- Whether members judge a type depends on its kind only. -/
theorem isMemberless_congr {a b : TypeBody} (h : a.kind = b.kind) :
    isMemberless a = isMemberless b := by
  cases a <;> cases b <;> cases h <;> rfl

namespace Filter

variable {f g : Filter} {t : NamedType}

/-- Two filters that differ in nothing but the order of their tags hide the same of a type and of
    the folded type, in the same order. -/
theorem typeExclusions_folded (hrule : f.rule = g.rule) (hownership : f.ownership = g.ownership)
    (htags : ∀ c, f.tags.of c = g.tags.of c) (h : t.Fits) (type : Name) :
    f.typeExclusions type ⟨t.folded, []⟩ = g.typeExclusions type t := by
  have hreason : ∀ c, f.reason? c = g.reason? c := by
    intro c
    rw [reason?, reason?, hrule, htags]
  have hhidden : ∀ elements, f.hidden elements = g.hidden elements := by
    intro elements
    simp only [hidden, hreason]
  have hmembers : f.judgedMembers type ⟨t.folded, []⟩ = g.judgedMembers type t := by
    rw [judgedMembers, judgedMembers, NamedType.members_folded h, hownership]
  have hkind : isMemberless t.folded.body = isMemberless t.definition.body :=
    isMemberless_congr t.kind_folded
  have htype : f.typeReason? type ⟨t.folded, []⟩ = g.typeReason? type t := by
    simp only [typeReason?, hmembers, hreason, hrule, htags, hkind]
  simp only [typeExclusions, hmembers, hhidden, htype, hownership]

end Filter

namespace Document

variable {d : Document}

/-- A rule hides the same elements of a document and of the folded document, for the same reasons
    and in the same order. -/
theorem exclusions_folded (h : d.ExtensionsFit) (rule : Rule) (ownership : Option Ownership)
    (skip : NameSet) (tagDirective : Option Name) :
    Filter.exclusions ⟨rule, d.folded.tags tagDirective, ownership⟩ d.folded skip
      = Filter.exclusions ⟨rule, d.tags tagDirective, ownership⟩ d skip := by
  apply Filter.exclusions_congr (types_folded d)
  intro entry hentry
  have ht : d.types.get? entry.1 = some entry.2 := (OrderedMap.get?_eq_some_iff _ _ _).2 hentry
  have hfits : entry.2.Fits := h.fits ht
  apply Filter.typeExclusions_folded
  · rfl
  · rfl
  · exact of_tags_folded h tagDirective
  · exact hfits

/-! ## Plain reachability -/

/-- Where nothing is ignored, the roots of a document and of the folded document reach the same. -/
theorem reachable_folded_iff (h : d.ExtensionsFit) (reached : NameSet) :
    d.folded.reachable none = .ok reached ↔ d.reachable none = .ok reached := by
  have hderivable : ∀ n, d.folded.Derivable none (· ∈ d.roots.map Prod.snd) n ↔
      d.Derivable none (· ∈ d.roots.map Prod.snd) n := by
    intro n
    constructor
    · exact fun hn => hn.of_folded h
    · exact fun hn => hn.folded h fun u _ _ => isIgnored_none u.directives
  have hreached : d.Resolves none →
      (d.folded.graphOf none).reachable (d.folded.roots.map Prod.snd)
        = (d.graphOf none).reachable (d.roots.map Prod.snd) := by
    intro hresolves
    apply NameSet.ext
    intro n
    rw [((resolves_folded_iff h).2 hresolves).mem_reachable_iff, hresolves.mem_reachable_iff,
      roots_folded]
    exact hderivable n
  rw [reachable_eq_ok_iff, reachable_eq_ok_iff, resolves_folded_iff h]
  constructor
  · intro hfolded
    exact ⟨hfolded.1, (hreached hfolded.1).symm.trans hfolded.2⟩
  · intro hsource
    exact ⟨hsource.1, (hreached hsource.1).trans hsource.2⟩

/-! ## All views -/

/-- If every extension extends a defined type of its kind, extensions count as parts of their types.
    In the document in which they are written into the definitions, and in which none is left, every
    element has the same tags, a rule hides the same elements for the same reasons, whether or not
    elements without owners count, and the roots reach the same types, unless there is no answer for
    both documents because of an unknown type. -/
theorem views_folded (d : Document) (h : d.ExtensionsFit) :
    d.folded.extensions = [] ∧
    (∀ tagDirective c, (d.folded.tags tagDirective).get? c = (d.tags tagDirective).get? c) ∧
    (∀ rule ownership skip tagDirective,
      Filter.exclusions ⟨rule, d.folded.tags tagDirective, ownership⟩ d.folded skip
        = Filter.exclusions ⟨rule, d.tags tagDirective, ownership⟩ d skip) ∧
    (∀ reached, d.folded.reachable none = .ok reached ↔ d.reachable none = .ok reached) ∧
    ((∃ name referrer, d.folded.reachable none = .error (.unknownType name referrer)) ↔
      ∃ name referrer, d.reachable none = .error (.unknownType name referrer)) := by
  have hreachable := reachable_folded_iff h
  have herror : (∃ name referrer, d.folded.reachable none = .error (.unknownType name referrer)) ↔
      ∃ name referrer, d.reachable none = .error (.unknownType name referrer) := by
    rw [(failsOnlyOnUnknown_reachable _ _).exists_unknownType_iff,
      (failsOnlyOnUnknown_reachable _ _).exists_unknownType_iff]
    simp only [hreachable]
  exact ⟨d.extensions_folded, get?_tags_folded h, exclusions_folded h, hreachable, herror⟩

end Document

/-! ## A shop in pieces -/

/-- A shop that is extended in front of its definition and behind it, where one extension repeats a
    field and brings an interface, and with extensions of a union and of an enum. -/
def scatteredShop : Document := ⟨[
  .typeExtension ⟨none, "Shop", [tagUse "public"], .object []
    [⟨none, "cost", [], .named "Int", [tagUse "internal"]⟩]⟩,
  .type ⟨none, "Query", [], .object [] [⟨none, "node", [], .named "Node", []⟩]⟩,
  .type ⟨none, "Node", [], .interface [] [⟨none, "id", [], .named "ID", []⟩]⟩,
  .type ⟨none, "Shop", [tagUse "shop"], .object []
    [⟨none, "name", [], .named "String", [tagUse "internal"]⟩]⟩,
  .typeExtension ⟨none, "Part", [tagUse "internal"], .union ["Shop"]⟩,
  .type ⟨none, "Part", [], .union ["Query"]⟩,
  .type ⟨none, "Unit", [], .enum [⟨none, "KILO", [tagUse "internal"]⟩]⟩,
  .typeExtension ⟨none, "Unit", [], .enum [⟨none, "GRAM", []⟩]⟩,
  .typeExtension ⟨none, "Shop", [], .object ["Node"]
    [⟨none, "name", [], .named "String", [tagUse "shop"]⟩,
     ⟨none, "part", [], .named "Part", [tagUse "internal"]⟩]⟩]⟩

/-- In one piece, the shop still has the tags of its extensions, is hidden with all its members and
    reached through the interface of an extension. -/
theorem scatteredShop_folded : scatteredShop.ExtensionsFit ∧
    scatteredShop.folded.extensions = [] ∧
    ((scatteredShop.folded.tags none).get? (.type "Shop")).map NameSet.names
      = some ["public", "shop"] ∧
    ((scatteredShop.folded.tags none).get? (.member "Shop" "name")).map NameSet.names
      = some ["internal", "shop"] ∧
    (Filter.exclusions
        ⟨.ofChoices none (some ["internal"]) true, scatteredShop.folded.tags none, none⟩
        scatteredShop.folded .empty).entries
      = [(.member "Shop" "name", .excludedTag), (.member "Shop" "cost", .excludedTag),
         (.member "Shop" "part", .excludedTag), (.type "Shop", .allMembersExcluded),
         (.type "Part", .excludedTag), (.member "Unit" "KILO", .excludedTag)] ∧
    ∃ reached, scatteredShop.folded.reachable none = .ok reached ∧
      reached.names = ["Node", "Part", "Query", "Shop"] := by
  have hfit : scatteredShop.ExtensionsFit := by decide +kernel
  obtain ⟨hextensions, htags, hexclusions, hreachable, -⟩ :=
    Document.views_folded scatteredShop hfit
  obtain ⟨reached, hreached, hnames⟩ : ∃ reached, scatteredShop.reachable none = .ok reached ∧
      reached.names = ["Node", "Part", "Query", "Shop"] := ⟨_, rfl, by decide +kernel⟩
  -- Everything is looked up in the source, with its extensions.
  rw [htags, htags, hexclusions]
  exact ⟨hfit, hextensions, by decide +kernel, by decide +kernel, by decide +kernel, reached,
    (hreachable reached).2 hreached, hnames⟩

end SchemaView
