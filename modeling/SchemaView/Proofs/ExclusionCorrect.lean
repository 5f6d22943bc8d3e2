import SchemaView.Contract.Exclusion
import SchemaView.Proofs.MarkBlindness

/-!
# What a rule hides, element by element

`Filter.exclusions` collects the hidden elements of all types into one map. `Filter.Hides` says the
same by kind of element: a judged argument or member whose own tags hide it, or an owned type that
has a reason to be hidden. From it follow that every hidden element is one that the document
declares, and that a stricter rule hides at least as much.

## Key results

- `mem_keys_exclusions`: the keys of the map are the hidden elements
- `get?_exclusions_iff`: the map gives the reasons
- `exists_site_of_mem_exclusions`: a hidden element is a site of the document
- `reason_ne_unreachable`: the rule itself never gives unreachability as a reason
- `Rule.Stricter`, `mem_exclusions_of_stricter`: a stricter rule hides at least as much
-/

namespace SchemaView

open Sdl

/-! ## Members -/

/-- The members that count are among those that are declared. -/
theorem mem_of_mem_firstDeclarations {m : Member} {ms : List Member}
    (h : m ∈ firstDeclarations ms) : m ∈ ms := by
  induction ms with
  | nil => exact h
  | cons n ms ih =>
    rw [firstDeclarations, List.mem_cons, List.mem_filter] at h
    rcases h with rfl | ⟨h, -⟩
    · exact List.mem_cons_self
    · exact List.mem_cons_of_mem _ (ih h)

namespace Filter

variable {f : Filter} {name : Name} {t : NamedType}

theorem mem_members_of_mem_judgedMembers {m : Member} (h : m ∈ f.judgedMembers name t) :
    m ∈ t.members :=
  mem_of_mem_firstDeclarations (List.mem_filter.1 h).1

/-! ## Hidden elements -/

/-- What is hidden of a type. -/
inductive Hides (f : Filter) (name : Name) (t : NamedType) : Coordinate → Prop
  | argument {m : Member} {a : InputValue} (hm : m ∈ f.judgedMembers name t)
      (ha : a ∈ m.arguments) (hreason : (f.reason? (.argument name m.name a.name)).isSome) :
      Hides f name t (.argument name m.name a.name)
  | member {m : Member} (hm : m ∈ f.judgedMembers name t)
      (hreason : (f.reason? (.member name m.name)).isSome) :
      Hides f name t (.member name m.name)
  | type (howned : isOwned f.ownership (.type name) = true)
      (hreason : (f.typeReason? name t).isSome) : Hides f name t (.type name)

/-- What is hidden of a type, with the reasons. -/
inductive HidesFor (f : Filter) (name : Name) (t : NamedType) : Coordinate → Reason → Prop
  | argument {m : Member} {a : InputValue} {reason : Reason} (hm : m ∈ f.judgedMembers name t)
      (ha : a ∈ m.arguments) (hreason : f.reason? (.argument name m.name a.name) = some reason) :
      HidesFor f name t (.argument name m.name a.name) reason
  | member {m : Member} {reason : Reason} (hm : m ∈ f.judgedMembers name t)
      (hreason : f.reason? (.member name m.name) = some reason) :
      HidesFor f name t (.member name m.name) reason
  | type {reason : Reason} (howned : isOwned f.ownership (.type name) = true)
      (hreason : f.typeReason? name t = some reason) : HidesFor f name t (.type name) reason

variable {c : Coordinate} {reason : Reason}

/-- Whatever is hidden is hidden for a reason. -/
theorem hides_iff : f.Hides name t c ↔ ∃ reason, f.HidesFor name t c reason := by
  constructor
  · intro h
    cases h with
    | argument hm ha hreason =>
      obtain ⟨reason, hreason⟩ := Option.isSome_iff_exists.1 hreason
      exact ⟨reason, .argument hm ha hreason⟩
    | member hm hreason =>
      obtain ⟨reason, hreason⟩ := Option.isSome_iff_exists.1 hreason
      exact ⟨reason, .member hm hreason⟩
    | type howned hreason =>
      obtain ⟨reason, hreason⟩ := Option.isSome_iff_exists.1 hreason
      exact ⟨reason, .type howned hreason⟩
  · rintro ⟨reason, h⟩
    cases h with
    | argument hm ha hreason => exact .argument hm ha (by rw [hreason]; rfl)
    | member hm hreason => exact .member hm (by rw [hreason]; rfl)
    | type howned hreason => exact .type howned (by rw [hreason]; rfl)

/-- What is hidden of a type is part of the type, or the type itself. -/
theorem HidesFor.typeName_eq (h : f.HidesFor name t c reason) : c.typeName = name := by
  cases h <;> rfl

/-- Nothing is hidden for two reasons. -/
theorem HidesFor.reason_unique {other : Reason} (h : f.HidesFor name t c reason)
    (h' : f.HidesFor name t c other) : reason = other := by
  -- Of arguments and members the tags decide, of the type the type decides.
  have hreason : ∀ {reason}, f.HidesFor name t c reason →
      (if c.isType then f.typeReason? name t else f.reason? c) = some reason := by
    intro reason h
    cases h with
    | argument _ _ hreason => exact hreason
    | member _ hreason => exact hreason
    | type _ hreason => exact hreason
  exact Option.some.inj ((hreason h).symm.trans (hreason h'))

private theorem mem_hidden {elements : List Coordinate} :
    (c, reason) ∈ f.hidden elements ↔ c ∈ elements ∧ f.reason? c = some reason := by
  simp only [hidden, List.mem_filterMap, Option.map_eq_some_iff, Prod.mk.injEq]
  constructor
  · rintro ⟨e, he, found, hfound, rfl, rfl⟩
    exact ⟨he, hfound⟩
  · rintro ⟨hc, hreason⟩
    exact ⟨c, hc, reason, hreason, rfl, rfl⟩

/-- The entries of a type are what is hidden of it, with the reasons. -/
theorem mem_typeExclusions :
    (c, reason) ∈ f.typeExclusions name t ↔ f.HidesFor name t c reason := by
  simp only [typeExclusions, List.mem_append, mem_hidden, List.mem_flatMap, List.mem_map]
  constructor
  · rintro ((⟨⟨m, hm, a, ha, rfl⟩, hreason⟩ | ⟨⟨m, hm, rfl⟩, hreason⟩) | htype)
    · exact .argument hm ha hreason
    · exact .member hm hreason
    · split at htype
      · rename_i howned
        obtain ⟨found, hfound, heq⟩ := Option.map_eq_some_iff.1 (Option.mem_toList.1 htype)
        cases heq
        exact .type howned hfound
      · exact absurd htype List.not_mem_nil
  · intro h
    cases h with
    | @argument m a _ hm ha hreason => exact Or.inl (Or.inl ⟨⟨m, hm, a, ha, rfl⟩, hreason⟩)
    | @member m _ hm hreason => exact Or.inl (Or.inr ⟨⟨m, hm, rfl⟩, hreason⟩)
    | type howned hreason => exact Or.inr (by simp [howned, hreason])

/-- The keys of the entries of a type are what is hidden of it. -/
theorem mem_keys_typeExclusions :
    c ∈ (f.typeExclusions name t).map Prod.fst ↔ f.Hides name t c := by
  rw [hides_iff, List.mem_map]
  constructor
  · rintro ⟨⟨_, reason⟩, he, rfl⟩
    exact ⟨reason, mem_typeExclusions.1 he⟩
  · rintro ⟨reason, h⟩
    exact ⟨(c, reason), mem_typeExclusions.2 h, rfl⟩

/-- The map gives the reasons for which something is hidden of the types that are taken into
    account. -/
theorem get?_exclusions_iff {d : Document} {skip : NameSet} :
    (f.exclusions d skip).get? c = some reason ↔
      ∃ name t, d.types.get? name = some t ∧ name ∉ skip ∧ f.HidesFor name t c reason := by
  have hmem : ∀ k r, (k, r) ∈ (d.types.entries.filter fun e => !decide (e.1 ∈ skip)).flatMap
        (fun e => f.typeExclusions e.1 e.2) ↔
      ∃ name t, d.types.get? name = some t ∧ name ∉ skip ∧ f.HidesFor name t k r := by
    intro k r
    simp only [List.mem_flatMap, List.mem_filter, mem_typeExclusions, Prod.exists,
      OrderedMap.get?_eq_some_iff, Bool.not_eq_true', decide_eq_false_iff_not, and_assoc]
  rw [exclusions, OrderedMap.get?_ofList_of_functional, hmem]
  intro k r r' hr hr'
  obtain ⟨name, t, ht, -, h⟩ := (hmem k r).1 hr
  obtain ⟨name', t', ht', -, h'⟩ := (hmem k r').1 hr'
  -- Only the entries of one type have the coordinate.
  have hname : name' = name := h'.typeName_eq.symm.trans h.typeName_eq
  rw [hname] at ht' h'
  rw [ht] at ht'
  cases ht'
  exact h.reason_unique h'

/-- The keys of the map are what is hidden of the types that are taken into account. -/
theorem mem_keys_exclusions {d : Document} {skip : NameSet} {c : Coordinate} :
    c ∈ (f.exclusions d skip).keys ↔
      ∃ name t, (name, t) ∈ d.types.entries ∧ name ∉ skip ∧ f.Hides name t c := by
  simp only [exclusions, OrderedMap.mem_keys_ofList, List.map_flatMap, List.mem_flatMap,
    mem_keys_typeExclusions, List.mem_filter, Bool.not_eq_true', decide_eq_false_iff_not]
  constructor
  · rintro ⟨⟨name, t⟩, ⟨he, hskip⟩, h⟩
    exact ⟨name, t, he, hskip, h⟩
  · rintro ⟨name, t, he, hskip, h⟩
    exact ⟨(name, t), ⟨he, hskip⟩, h⟩

/-! ## Hidden elements are declared -/

/-- Of a member, its own site and those of its arguments are sites of the declaration. -/
theorem mem_sitesOf_of_mem_membersOf {u : TypeDecl} {m : Member} (hm : m ∈ membersOf u.body)
    {s : Site} (hs : s ∈ m.sites u.name) : s ∈ sitesOf u :=
  List.mem_cons_of_mem _ (List.mem_flatMap.2 ⟨m, hm, hs⟩)

/-- What is hidden of a type is a site of one of its declarations. -/
theorem Hides.exists_site {c : Coordinate} (h : f.Hides name t c)
    (hname : ∀ u ∈ t.declarations, u.name = name) :
    ∃ u ∈ t.declarations, ∃ s ∈ sitesOf u, s.coordinate = c := by
  -- A judged member is declared somewhere, and that declaration has its site.
  have hmember : ∀ {m}, m ∈ f.judgedMembers name t →
      ∃ u ∈ t.declarations, m ∈ membersOf u.body := fun hm =>
    List.mem_flatMap.1 (mem_members_of_mem_judgedMembers hm)
  cases h with
  | @argument m a hm ha _ =>
    obtain ⟨u, hu, hbody⟩ := hmember hm
    refine ⟨u, hu, ⟨.argument u.name m.name a.name, a.directives⟩, ?_, by rw [hname u hu]⟩
    exact mem_sitesOf_of_mem_membersOf hbody
      (List.mem_cons_of_mem _ (List.mem_map.2 ⟨a, ha, rfl⟩))
  | @member m hm _ =>
    obtain ⟨u, hu, hbody⟩ := hmember hm
    refine ⟨u, hu, ⟨.member u.name m.name, m.directives⟩, ?_, by rw [hname u hu]⟩
    exact mem_sitesOf_of_mem_membersOf hbody List.mem_cons_self
  | type _ _ =>
    have hu : t.definition ∈ t.declarations := List.mem_cons_self
    exact ⟨t.definition, hu, _, List.mem_cons_self, by rw [hname _ hu]⟩

/-- The declarations of a named type are declarations of the document. -/
theorem mem_typeDeclarations {d : Document} (h : (name, t) ∈ d.types.entries) {u : TypeDecl}
    (hu : u ∈ t.declarations) : u ∈ d.typeDeclarations := by
  exact ((Document.mem_declarations_iff ((OrderedMap.get?_eq_some_iff _ _ _).2 h) u).1 hu).1

/-- A hidden element is a site of the document. -/
theorem exists_site_of_mem_exclusions {d : Document} {skip : NameSet} {c : Coordinate}
    (h : c ∈ (f.exclusions d skip).keys) :
    ∃ u ∈ d.typeDeclarations, ∃ s ∈ sitesOf u, s.coordinate = c := by
  obtain ⟨name, t, he, -, hhides⟩ := mem_keys_exclusions.1 h
  obtain ⟨u, hu, hsite⟩ := hhides.exists_site (Document.name_of_mem_declarations he)
  exact ⟨u, mem_typeDeclarations he hu, hsite⟩

end Filter

/-! ## Reasons -/

theorem Rule.reason?_ne_unreachable {r : Rule} {tags : NameSet} {applyInclude : Bool}
    {reason : Reason} (h : r.reason? tags applyInclude = some reason) : reason ≠ .unreachable := by
  unfold Rule.reason? at h
  split at h
  · cases h
    decide
  · split at h
    · cases h
      decide
    · cases h

namespace Filter

variable {f : Filter} {name : Name} {t : NamedType} {c : Coordinate} {reason : Reason}

private theorem typeReason?_ne_unreachable (h : f.typeReason? name t = some reason) :
    reason ≠ .unreachable := by
  simp only [typeReason?] at h
  split at h
  · -- The type is hidden by its own tags.
    rename_i own hown
    cases h
    exact Rule.reason?_ne_unreachable hown
  · split at h
    · cases h
      decide
    · cases h

/-- The rule itself never gives unreachability as a reason. -/
theorem reason_ne_unreachable {d : Document} {skip : NameSet}
    (h : (c, reason) ∈ (f.exclusions d skip).entries) : reason ≠ .unreachable := by
  obtain ⟨name, t, -, -, hhides⟩ := get?_exclusions_iff.1 ((OrderedMap.get?_eq_some_iff _ _ _).2 h)
  cases hhides with
  | argument _ _ hreason => exact Rule.reason?_ne_unreachable hreason
  | member _ hreason => exact Rule.reason?_ne_unreachable hreason
  | type _ hreason => exact typeReason?_ne_unreachable hreason

end Filter

/-! ## Stricter rules -/

/-- A rule that asks for at least as much as another: it excludes all tags that the other excludes,
    includes fewer tags if the other demands any, and removes what is unreachable if the other
    does. -/
structure Rule.Stricter (strict lax : Rule) : Prop where
  excluded : ∀ tag ∈ lax.excluded, tag ∈ strict.excluded
  included : lax.included.isEmpty = true ∨
    (strict.included.isEmpty = false ∧ ∀ tag ∈ strict.included, tag ∈ lax.included)
  removes : lax.removeUnreachable = true → strict.removeUnreachable = true

/-- An element is hidden by its tags if one is excluded, or if include tags count, there are any,
    and it has none of them. -/
theorem Rule.isSome_reason?_iff (r : Rule) (tags : NameSet) (applyInclude : Bool) :
    (r.reason? tags applyInclude).isSome = true ↔ tags.meets r.excluded = true
      ∨ (applyInclude = true ∧ r.included.isEmpty = false ∧ tags.meets r.included = false) := by
  unfold Rule.reason?
  cases tags.meets r.excluded <;> cases applyInclude <;> cases r.included.isEmpty <;>
    cases tags.meets r.included <;> decide

/-- What a rule hides by tags, a stricter one hides as well. -/
theorem Rule.Stricter.reason? {strict lax : Rule} (h : strict.Stricter lax) {tags : NameSet}
    {applyInclude : Bool} (hlax : (lax.reason? tags applyInclude).isSome = true) :
    (strict.reason? tags applyInclude).isSome = true := by
  rw [Rule.isSome_reason?_iff] at hlax ⊢
  -- An excluded tag stays excluded; without include tags nothing is missed.
  rcases hlax with hmeets | ⟨happly, hsome, hmiss⟩
  · obtain ⟨tag, htags, hlax⟩ := NameSet.meets_iff.1 hmeets
    exact Or.inl (NameSet.meets_iff.2 ⟨tag, htags, h.excluded tag hlax⟩)
  · obtain ⟨hne, hsub⟩ := h.included.resolve_left (by simp [hsome])
    refine Or.inr ⟨happly, hne, Bool.eq_false_iff.2 fun hmeets => ?_⟩
    -- A tag that the stricter rule includes is one that the other includes.
    obtain ⟨tag, htags, hstrict⟩ := NameSet.meets_iff.1 hmeets
    have hmeets' := NameSet.meets_iff.2 ⟨tag, htags, hsub tag hstrict⟩
    rw [hmiss] at hmeets'
    cases hmeets'

namespace Filter

variable {strict lax : Rule} {tags : TagMap} {ownership : Option Ownership}

/-- What is hidden of a type, a stricter rule hides as well. -/
theorem Hides.of_stricter (h : strict.Stricter lax) {name : Name} {t : NamedType} {c : Coordinate}
    (hlax : (Filter.mk lax tags ownership).Hides name t c) :
    (Filter.mk strict tags ownership).Hides name t c := by
  cases hlax with
  | argument hm ha hreason => exact .argument hm ha (h.reason? hreason)
  | member hm hreason => exact .member hm (h.reason? hreason)
  | type howned hreason =>
    refine .type howned ?_
    simp only [typeReason?] at hreason ⊢
    split
    · rfl
    · rename_i hnone
      -- The stricter rule finds nothing in the tags of the type, so the other did not either, and
      -- all members were hidden by their own tags.
      split at hreason
      · rename_i own hown
        have hsome := h.reason? (Option.isSome_iff_exists.2 ⟨own, hown⟩)
        rw [hnone] at hsome
        cases hsome
      · split at hreason
        · rename_i hall
          rw [Bool.and_eq_true, List.all_eq_true] at hall
          have hstrict := And.intro hall.1 fun m hm => h.reason? (hall.2 m hm)
          rw [if_pos]
          · rfl
          · rw [Bool.and_eq_true, List.all_eq_true]
            exact hstrict
        · cases hreason

/-- What a rule hides of a document, a stricter one hides as well. -/
theorem mem_exclusions_of_stricter (h : strict.Stricter lax) {d : Document} {skip : NameSet}
    {c : Coordinate} (hc : c ∈ ((Filter.mk lax tags ownership).exclusions d skip).keys) :
    c ∈ ((Filter.mk strict tags ownership).exclusions d skip).keys := by
  obtain ⟨name, t, he, hskip, hhides⟩ := mem_keys_exclusions.1 hc
  exact mem_keys_exclusions.2 ⟨name, t, he, hskip, hhides.of_stricter h⟩

end Filter

end SchemaView
