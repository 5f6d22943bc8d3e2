import SchemaView.Contract.Compilation
import SchemaView.Proofs.ExclusionCorrect

/-!
# The tags that a document declares

The map of tags is collected site by site, in the order of the document. Read at a coordinate it has
the tags that the declarations of defined types give there, whether these are definitions or
extensions, and however often the element is declared.

## Key results

- `mem_of_recordTags`: what one site adds
- `mem_of_tagsBy`, `get?_tagsBy_iff`: what all sites give, and which elements are listed
- `mem_of_filterTags_member`: the tags of a member that a compilation goes by
-/

namespace SchemaView

open Sdl

variable {name : Name} {tag : String} {c : Coordinate} {d : Document}

/-- A site adds its tags to those of its coordinate and leaves all others alone. -/
theorem mem_of_recordTags {tags : TagMap} {site : Site} :
    tag ∈ (recordTags name tags site).of c ↔
      tag ∈ tags.of c ∨ (site.coordinate = c ∧ tag ∈ tagsIn name site.directives) := by
  unfold recordTags
  split
  · rename_i hnone
    simp [hnone]
  · rename_i hsome
    rw [TagMap.of, OrderedMap.alter, OrderedMap.get?_insert]
    by_cases hc : c = site.coordinate
    · subst hc
      simp [TagMap.of]
    · have hc' : ¬ site.coordinate = c := fun heq => hc heq.symm
      simp [TagMap.of, hc, hc']

/-- Sites add their tags to those of their coordinates. -/
theorem mem_of_foldl_recordTags {sites : List Site} {tags : TagMap} :
    tag ∈ (sites.foldl (recordTags name) tags).of c ↔
      tag ∈ tags.of c ∨ ∃ s ∈ sites, s.coordinate = c ∧ tag ∈ tagsIn name s.directives := by
  induction sites generalizing tags with
  | nil => simp
  | cons s sites ih =>
    rw [List.foldl_cons, ih, mem_of_recordTags, or_assoc]
    simp only [List.mem_cons, exists_eq_or_imp]

namespace Document

/-- The tags of an element are those at the sites of defined types that have its coordinate. -/
theorem mem_of_tagsBy : tag ∈ (d.tagsBy name).of c ↔ ∃ t ∈ d.types.values,
    ∃ u ∈ t.declarations, ∃ s ∈ sitesOf u, s.coordinate = c ∧ tag ∈ tagsIn name s.directives := by
  have hempty : tag ∉ TagMap.of .empty c := NameSet.not_mem_empty tag
  rw [tagsBy, mem_of_foldl_recordTags, or_iff_right hempty]
  simp only [List.mem_flatMap]
  constructor
  · rintro ⟨s, ⟨t, ht, u, hu, hs⟩, h⟩
    exact ⟨t, ht, u, hu, s, hs, h⟩
  · rintro ⟨t, ht, u, hu, s, hs, h⟩
    exact ⟨s, ⟨t, ht, u, hu, hs⟩, h⟩

end Document

/-- Every element that is listed with tags has one. -/
def TagMap.Tagged (tags : TagMap) : Prop := ∀ c set, tags.get? c = some set → ∃ tag, tag ∈ set

/-- A site lists its element only with a tag. -/
theorem TagMap.Tagged.recordTags {tags : TagMap} (h : tags.Tagged) (name : Name) (site : Site) :
    (recordTags name tags site).Tagged := by
  unfold SchemaView.recordTags
  split
  · exact h
  · rename_i found hsome
    intro c set hget
    rw [OrderedMap.alter, OrderedMap.get?_insert] at hget
    split at hget
    · cases hget
      obtain ⟨tag, htag⟩ := List.exists_mem_of_ne_nil _ hsome
      exact ⟨tag, NameSet.mem_union.2 (Or.inr (NameSet.mem_ofList.2 htag))⟩
    · exact h c set hget

theorem TagMap.Tagged.foldl_recordTags {sites : List Site} {tags : TagMap} (h : tags.Tagged) :
    (sites.foldl (SchemaView.recordTags name) tags).Tagged := by
  induction sites generalizing tags with
  | nil => exact h
  | cons s sites ih => exact ih (h.recordTags name s)

namespace Document

/-- An element is listed with its tags exactly if it has any. -/
theorem get?_tagsBy_iff {set : NameSet} : (d.tagsBy name).get? c = some set ↔
    (d.tagsBy name).of c = set ∧ ∃ tag, tag ∈ set := by
  have htagged : (d.tagsBy name).Tagged := by
    apply TagMap.Tagged.foldl_recordTags
    intro c set hget
    cases hget
  constructor
  · intro hget
    exact ⟨by rw [TagMap.of, hget, Option.getD_some], htagged c set hget⟩
  · intro h
    obtain ⟨rfl, tag, htag⟩ := h
    rw [TagMap.of] at htag ⊢
    cases hget : (d.tagsBy name).get? c with
    | none =>
      rw [hget] at htag
      exact absurd htag (NameSet.not_mem_empty tag)
    | some set => rfl

/-- Where an element has the same tags in two documents, it is listed in both or in neither. -/
theorem get?_tagsBy_congr {e : Document} (h : (e.tagsBy name).of c = (d.tagsBy name).of c) :
    (e.tagsBy name).get? c = (d.tagsBy name).get? c := by
  apply Option.ext
  intro set
  rw [get?_tagsBy_iff, get?_tagsBy_iff, h]

/-- The name of the tag directive by which a document is filtered. -/
def filterDirective (d : Document) (config : Config) : Name :=
  let name := d.tagDirective config.tagDirective
  if name.isEmpty then d.tagDirective defaultTagDirective else name

theorem filterTags_eq (d : Document) (config : Config) :
    d.filterTags config = d.tagsBy (d.filterDirective config) := rfl

/-- A site that has the coordinate of a member is the site of a declared member of that name. -/
theorem exists_member_of_site {u : TypeDecl} {s : Site} {type : Name} (hs : s ∈ sitesOf u)
    (hc : s.coordinate = .member type name) :
    u.name = type ∧ ∃ m ∈ membersOf u.body, m.name = name ∧ m.directives = s.directives := by
  rcases List.mem_cons.1 hs with rfl | hs
  · cases hc
  · obtain ⟨m, hm, hs⟩ := List.mem_flatMap.1 hs
    rcases List.mem_cons.1 hs with rfl | hs
    · cases hc
      exact ⟨rfl, m, hm, rfl, rfl⟩
    · obtain ⟨a, -, rfl⟩ := List.mem_map.1 hs
      cases hc

/-- The tags of a member are those of its declarations in the definition and the extensions of its
    type. -/
theorem mem_of_filterTags_member {config : Config} {type : Name} {t : NamedType}
    (ht : d.types.get? type = some t) :
    tag ∈ (d.filterTags config).of (.member type name) ↔
      ∃ m ∈ t.members, m.name = name ∧ tag ∈ tagsIn (d.filterDirective config) m.directives := by
  rw [filterTags_eq, mem_of_tagsBy]
  constructor
  · rintro ⟨other, hother, u, hu, s, hs, hc, htag⟩
    obtain ⟨key, hget⟩ := (OrderedMap.mem_values_iff _ _).1 hother
    obtain ⟨hname, m, hm, hmember, hdirectives⟩ := exists_member_of_site hs hc
    -- Only one type has declarations of this name.
    have hkey : key = type := ((mem_declarations_iff hget u).1 hu).2.symm.trans hname
    rw [hkey, ht, Option.some.injEq] at hget
    subst hget
    exact ⟨m, List.mem_flatMap.2 ⟨u, hu, hm⟩, hmember, hdirectives ▸ htag⟩
  · rintro ⟨m, hm, rfl, htag⟩
    obtain ⟨u, hu, hm⟩ := List.mem_flatMap.1 hm
    refine ⟨t, (OrderedMap.mem_values_iff _ _).2 ⟨type, ht⟩, u, hu,
      ⟨.member u.name m.name, m.directives⟩, ?_, ?_, htag⟩
    · exact Filter.mem_sitesOf_of_mem_membersOf hm List.mem_cons_self
    · rw [((mem_declarations_iff ht u).1 hu).2]

end Document

end SchemaView
