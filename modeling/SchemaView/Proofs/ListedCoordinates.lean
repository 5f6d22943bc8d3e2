import Mathlib.Algebra.Order.BigOperators.Group.List
import SchemaView.Proofs.ListedTags
import SchemaView.Proofs.MarkingLaws

/-!
# Which elements are listed

`Document.coordinates` lists the elements that definitions declare. Tags are collected and rules are
applied to what extensions declare as well, so both may name an element that is not listed. This
file says which ones: no element comes up that is not declared, an element is listed exactly if the
definition of its type declares it, and all elements that come up are listed, whatever the rule,
exactly if no extension is the first to declare a member and no extension tags an element that its
definition lacks.

## Key results

- `mem_coordinates_iff`: the listed elements are those of definitions
- `Comes.declared`: no element comes up that is not declared
- `exists_rule_hides`: for every document there is a rule that hides all judged elements
- `comes_listed_iff`: which elements come up, which of them are listed, and when all are
-/

namespace SchemaView

open Sdl

namespace Document

/-- The name of the tag directive by which tags are collected. -/
def usedTagDirective (d : Document) : Option Name → Name
  | some name => if name.isEmpty then d.tagDirective defaultTagDirective else name
  | none => d.tagDirective defaultTagDirective

theorem tags_eq (d : Document) (directive : Option Name) :
    d.tags directive = d.tagsBy (d.usedTagDirective directive) := by
  cases directive <;> rfl

/-- An element comes up in a document if it has tags or if a rule hides it by these. -/
def Comes (d : Document) (directive : Option Name) (rule : Rule) (ownership : Option Ownership)
    (skip : NameSet) (c : Coordinate) : Prop :=
  c ∈ (d.tags directive).keys ∨
    c ∈ ((Filter.mk rule (d.tags directive) ownership).exclusions d skip).keys

/-- A definition or an extension of a defined type declares the element. -/
def Declares (d : Document) (c : Coordinate) : Prop :=
  ∃ t ∈ d.types.values, ∃ u ∈ t.declarations, ∃ s ∈ sitesOf u, s.coordinate = c

variable {d : Document} {directive : Option Name} {c : Coordinate}

/-! ## What is listed -/

/-- The listed elements are those that the definitions of types declare. -/
theorem mem_coordinates_iff : c ∈ d.coordinates ↔
    ∃ t ∈ d.types.values, ∃ s ∈ sitesOf t.definition, s.coordinate = c := by
  have hdefinition : ∀ u, u ∈ d.definedTypes.values ↔ ∃ t ∈ d.types.values, t.definition = u := by
    intro u
    simp only [OrderedMap.mem_values_iff, get?_types, Option.map_eq_some_iff]
    constructor
    · rintro ⟨name, hu⟩
      exact ⟨_, ⟨name, u, hu, rfl⟩, rfl⟩
    · rintro ⟨_, ⟨name, u, hu, rfl⟩, rfl⟩
      exact ⟨name, hu⟩
  simp only [coordinates, List.mem_flatMap, List.mem_map, hdefinition]
  constructor
  · rintro ⟨_, ⟨t, ht, rfl⟩, s, hs, hc⟩
    exact ⟨t, ht, s, hs, hc⟩
  · rintro ⟨t, ht, s, hs, hc⟩
    exact ⟨_, ⟨t, ht, rfl⟩, s, hs, hc⟩

/-- Every type is listed. -/
theorem type_mem_coordinates {name : Name} {t : NamedType} (ht : d.types.get? name = some t) :
    .type name ∈ d.coordinates := by
  have hname : t.definition.name = name :=
    ((mem_declarations_iff ht t.definition).1 List.mem_cons_self).2
  refine mem_coordinates_iff.2 ⟨t, (OrderedMap.mem_values_iff _ _).2 ⟨name, ht⟩, _,
    List.mem_cons_self, ?_⟩
  rw [hname]

/-! ## What comes up -/

/-- An element has tags if a declaration of a defined type gives it one. -/
theorem mem_keys_tags_iff : c ∈ (d.tags directive).keys ↔
    ∃ t ∈ d.types.values, ∃ u ∈ t.declarations, ∃ s ∈ sitesOf u, s.coordinate = c ∧
      tagsIn (d.usedTagDirective directive) s.directives ≠ [] := by
  simp only [tags_eq, OrderedMap.mem_keys_iff, get?_tagsBy_iff]
  constructor
  · rintro ⟨_, rfl, tag, htag⟩
    obtain ⟨t, ht, u, hu, s, hs, hc, htag⟩ := mem_of_tagsBy.1 htag
    exact ⟨t, ht, u, hu, s, hs, hc, List.ne_nil_of_mem htag⟩
  · rintro ⟨t, ht, u, hu, s, hs, hc, hne⟩
    obtain ⟨tag, htag⟩ := List.exists_mem_of_ne_nil _ hne
    exact ⟨_, rfl, tag, mem_of_tagsBy.2 ⟨t, ht, u, hu, s, hs, hc, htag⟩⟩

/-- No element comes up that is not declared. -/
theorem Comes.declared {rule : Rule} {ownership : Option Ownership} {skip : NameSet}
    (h : d.Comes directive rule ownership skip c) : d.Declares c := by
  rcases h with htagged | hhidden
  · obtain ⟨t, ht, u, hu, s, hs, hc, -⟩ := mem_keys_tags_iff.1 htagged
    exact ⟨t, ht, u, hu, s, hs, hc⟩
  · obtain ⟨name, t, he, -, hhides⟩ := Filter.mem_keys_exclusions.1 hhidden
    have ht : t ∈ d.types.values :=
      (OrderedMap.mem_values_iff _ _).2 ⟨name, (OrderedMap.get?_eq_some_iff _ _ _).2 he⟩
    obtain ⟨u, hu, s, hs, hc⟩ := hhides.exists_site (name_of_mem_declarations he)
    exact ⟨t, ht, u, hu, s, hs, hc⟩

/-! ## A rule that hides what it is applied to -/

/-- There is a tag that is not among given ones. -/
theorem exists_unused_tag (tags : List String) :
    ∃ tag : String, tag.isEmpty = false ∧ tag ∉ tags := by
  -- A text that is longer than all tags together.
  obtain ⟨tag, htag⟩ : ∃ tag : String, tag.length = (tags.map String.length).sum + 1 :=
    ⟨String.ofList (List.replicate _ 'x'), by rw [String.length_ofList, List.length_replicate]⟩
  refine ⟨tag, ?_, fun hmem => ?_⟩
  · rw [Bool.eq_false_iff]
    intro hempty
    rw [String.isEmpty_iff.1 hempty, String.length_empty] at htag
    omega
  · have hle : tag.length ≤ (tags.map String.length).sum :=
      List.le_sum_of_mem (List.mem_map_of_mem hmem)
    omega

/-- Some rule hides every member that counts and all of its arguments, whatever their tags. -/
theorem exists_rule_hides (d : Document) (directive : Option Name) : ∃ rule : Rule,
    ∀ name t, d.types.get? name = some t → ∀ m ∈ firstDeclarations t.members,
      ∀ s ∈ m.sites name, d.Comes directive rule none .empty s.coordinate := by
  obtain ⟨tag, hsome, hunused⟩ := exists_unused_tag (d.tags directive).all.names
  have hincluded : ∀ x, x ∈ (Rule.ofChoices (some [tag]) none false).included ↔ x = tag := by
    intro x
    simp [Rule.ofChoices, Rule.included, chosenTags, hsome]
  -- The rule asks for a tag that no element has.
  have hreason : ∀ c, (Filter.reason? ⟨.ofChoices (some [tag]) none false, d.tags directive, none⟩
      c).isSome = true := by
    intro c
    refine (Rule.isSome_reason?_iff _ _ _).2 (Or.inr ⟨rfl, ?_, ?_⟩)
    · rw [Bool.eq_false_iff]
      intro hempty
      exact NameSet.isEmpty_iff.1 hempty tag ((hincluded tag).2 rfl)
    · rw [Bool.eq_false_iff]
      intro hmeets
      obtain ⟨x, hx, hin⟩ := NameSet.meets_iff.1 hmeets
      obtain rfl : x = tag := (hincluded x).1 hin
      exact hunused (TagMap.mem_all_iff.2 ⟨c, hx⟩)
  refine ⟨.ofChoices (some [tag]) none false, fun name t ht m hm s hs => Or.inr ?_⟩
  -- Without owners, all members that count are judged.
  have hjudged : m ∈ Filter.judgedMembers ⟨.ofChoices (some [tag]) none false, d.tags directive,
      none⟩ name t := List.mem_filter.2 ⟨hm, rfl⟩
  refine Filter.mem_keys_exclusions.2 ⟨name, t, (OrderedMap.get?_eq_some_iff _ _ _).1 ht,
    NameSet.not_mem_empty name, ?_⟩
  rcases List.mem_cons.1 hs with rfl | hs
  · exact .member hjudged (hreason _)
  · obtain ⟨a, ha, rfl⟩ := List.mem_map.1 hs
    exact .argument hjudged ha (hreason _)

/-! ## When everything that comes up is listed -/

/-- The definition of a type declares first whatever member the type has, with all of its arguments,
    and what has tags in an extension. -/
structure ListsAll (d : Document) (directive : Option Name) : Prop where
  members : ∀ name t, d.types.get? name = some t → ∀ m ∈ firstDeclarations t.members,
    ∀ s ∈ m.sites name, s.coordinate ∈ d.coordinates
  tagged : ∀ t ∈ d.types.values, ∀ u ∈ t.extensions, ∀ s ∈ sitesOf u,
    tagsIn (d.usedTagDirective directive) s.directives ≠ [] → s.coordinate ∈ d.coordinates

/-- Where the definitions list all, nothing comes up that is not listed. -/
theorem ListsAll.mem_coordinates (h : d.ListsAll directive) {rule : Rule}
    {ownership : Option Ownership} {skip : NameSet} (hc : d.Comes directive rule ownership skip c) :
    c ∈ d.coordinates := by
  rcases hc with htagged | hhidden
  · obtain ⟨t, ht, u, hu, s, hs, rfl, hne⟩ := mem_keys_tags_iff.1 htagged
    rcases List.mem_cons.1 hu with rfl | hextension
    · exact mem_coordinates_iff.2 ⟨t, ht, s, hs, rfl⟩
    · exact h.tagged t ht u hextension s hs hne
  · obtain ⟨name, t, he, -, hhides⟩ := Filter.mem_keys_exclusions.1 hhidden
    have ht : d.types.get? name = some t := (OrderedMap.get?_eq_some_iff _ _ _).2 he
    cases hhides with
    | @argument m a hm ha _ =>
      have hfirst : m ∈ firstDeclarations t.members := (List.mem_filter.1 hm).1
      exact h.members name t ht m hfirst ⟨.argument name m.name a.name, a.directives⟩
        (List.mem_cons_of_mem _ (List.mem_map.2 ⟨a, ha, rfl⟩))
    | @member m hm _ =>
      exact h.members name t ht m (List.mem_filter.1 hm).1 ⟨.member name m.name, m.directives⟩
        List.mem_cons_self
    | type _ _ => exact type_mem_coordinates ht

/-- Whatever has tags or is hidden is declared in the definition or in an extension of a defined
    type, and it is listed exactly if a definition declares it. All of it is listed for every rule
    exactly if the definitions declare all members that count, with their arguments, and all that
    has tags in extensions. -/
theorem comes_listed_iff (d : Document) (directive : Option Name) :
    (∀ rule ownership skip c, d.Comes directive rule ownership skip c →
      d.Declares c ∧ (c ∈ d.coordinates ↔
        ∃ t ∈ d.types.values, ∃ s ∈ sitesOf t.definition, s.coordinate = c)) ∧
    ((∀ rule ownership skip c, d.Comes directive rule ownership skip c → c ∈ d.coordinates) ↔
      d.ListsAll directive) := by
  refine ⟨fun _ _ _ _ hc => ⟨hc.declared, mem_coordinates_iff⟩, ?_⟩
  constructor
  · intro hlisted
    refine ⟨fun name t ht m hm s hs => ?_, fun t ht u hu s hs hne => ?_⟩
    · -- The elements of members come up by a rule that hides all of them.
      obtain ⟨rule, hrule⟩ := d.exists_rule_hides directive
      exact hlisted rule none .empty _ (hrule name t ht m hm s hs)
    · have hkey : s.coordinate ∈ (d.tags directive).keys :=
        mem_keys_tags_iff.2 ⟨t, ht, u, List.mem_cons_of_mem _ hu, s, hs, rfl, hne⟩
      exact hlisted (.ofChoices none none false) none .empty _ (Or.inl hkey)
  · exact fun h _ _ _ _ hc => h.mem_coordinates hc

end Document

/-! ## Shops with extensions -/

/-- A shop whose extension tags the type and a field that the definition declares. -/
def taggedAgainShop : Document := ⟨[
  .type ⟨none, "Query", [], .object [] [⟨none, "shop", [], .named "String", []⟩]⟩,
  .typeExtension ⟨none, "Query", [⟨"tag", [⟨"name", .string ⟨"public", false⟩⟩]⟩], .object []
    [⟨none, "shop", [], .named "String", [⟨"tag", [⟨"name", .string ⟨"internal", false⟩⟩]⟩]⟩]⟩]⟩

/-- All that comes up in it is listed, whatever the rule. -/
theorem taggedAgainShop_lists_all : ∀ rule ownership skip c,
    taggedAgainShop.Comes none rule ownership skip c → c ∈ taggedAgainShop.coordinates := by
  obtain ⟨-, hlisted⟩ := taggedAgainShop.comes_listed_iff none
  have hmembers : ∀ e ∈ taggedAgainShop.types.entries, ∀ m ∈ firstDeclarations e.2.members,
      ∀ s ∈ m.sites e.1, s.coordinate ∈ taggedAgainShop.coordinates := by decide +kernel
  refine hlisted.2 ⟨fun name t ht => ?_, by decide +kernel⟩
  exact hmembers (name, t) ((OrderedMap.get?_eq_some_iff _ _ _).1 ht)

/-- A shop whose extension declares and tags a field. -/
def annotatedShop : Document := ⟨[
  .type ⟨none, "Query", [], .object [] [⟨none, "shop", [], .named "String", []⟩]⟩,
  .typeExtension ⟨none, "Query", [], .object []
    [⟨none, "note", [], .named "String", [⟨"tag", [⟨"name", .string ⟨"internal", false⟩⟩]⟩]⟩]⟩]⟩

/-- The field has a tag and is hidden by it, but it is not listed. -/
theorem annotatedShop_note_not_listed :
    .member "Query" "note" ∈ (annotatedShop.tags none).keys ∧
    .member "Query" "note" ∈ ((Filter.mk (.ofChoices none (some ["internal"]) true)
      (annotatedShop.tags none) none).exclusions annotatedShop .empty).keys ∧
    .member "Query" "note" ∉ annotatedShop.coordinates := by
  decide +kernel

end SchemaView
