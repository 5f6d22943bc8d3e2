import SchemaView.Proofs.CompileCorrect
import SchemaView.Proofs.DeclaredReach

/-!
# Types that are hidden with their members

A rule hides a type for its members if it judges any of them and hides all that it judges. Members
are judged by name, and where owners count only those that have one. So of a type that is hidden for
its members, the members that have an owner are hidden, in whichever declaration they stand, and the
members that have none stay visible.

## Key results

- `exists_mem_firstDeclarations`: some declaration of every member counts
- `member_mem_exclusions_iff`: the members that a rule hides
- `get?_exclusions_type`: the reason for which a type is hidden
- `allMembersExcluded_member_iff`: which members of a type that is hidden for them are hidden
-/

namespace SchemaView

open Sdl

/-! ## Members that count -/

/-- Of every declared member there is a declaration that counts. -/
theorem exists_mem_firstDeclarations {m : Member} {ms : List Member} (h : m ∈ ms) :
    ∃ first ∈ firstDeclarations ms, first.name = m.name := by
  induction ms with
  | nil => exact absurd h List.not_mem_nil
  | cons n ms ih =>
    rw [firstDeclarations]
    -- The first member of all counts, and hides later ones of its name only.
    by_cases hname : n.name = m.name
    · exact ⟨n, List.mem_cons_self, hname⟩
    · have hm : m ∈ ms := by
        rcases List.mem_cons.1 h with rfl | hm
        · exact absurd rfl hname
        · exact hm
      obtain ⟨first, hfirst, heq⟩ := ih hm
      have hdiffer : (first.name != n.name) = true := by
        rw [bne_iff_ne, heq]
        exact fun hn => hname hn.symm
      exact ⟨first, List.mem_cons_of_mem _ (List.mem_filter.2 ⟨hfirst, hdiffer⟩), heq⟩

namespace Filter

variable {f : Filter} {type name : Name} {t : NamedType} {d : Document} {skip : NameSet}

/-- A member is judged, by one of its declarations, exactly if it is declared and has an owner where
    owners count. -/
theorem exists_mem_judgedMembers_iff :
    (∃ m ∈ f.judgedMembers type t, m.name = name) ↔
      (∃ m ∈ t.members, m.name = name) ∧ isOwned f.ownership (.member type name) = true := by
  constructor
  · rintro ⟨m, hm, rfl⟩
    exact ⟨⟨m, mem_members_of_mem_judgedMembers hm, rfl⟩, (List.mem_filter.1 hm).2⟩
  · rintro ⟨⟨m, hm, rfl⟩, howned⟩
    obtain ⟨first, hfirst, hname⟩ := exists_mem_firstDeclarations hm
    exact ⟨first, List.mem_filter.2 ⟨hfirst, by rwa [hname]⟩, hname⟩

/-! ## What a rule hides -/

/-- A rule hides the members of types that are not skipped which are declared there, have an owner
    where owners count, and have tags by which they are hidden. -/
theorem member_mem_exclusions_iff :
    Coordinate.member type name ∈ (f.exclusions d skip).keys ↔ type ∉ skip ∧
      (∃ t, d.types.get? type = some t ∧ ∃ m ∈ t.members, m.name = name) ∧
      isOwned f.ownership (.member type name) = true ∧
      (f.reason? (.member type name)).isSome = true := by
  rw [mem_keys_exclusions]
  constructor
  · rintro ⟨_, t, he, hskip, hhides⟩
    cases hhides with
    | @member m hm hreason =>
      obtain ⟨hdeclared, howned⟩ := exists_mem_judgedMembers_iff.1 ⟨m, hm, rfl⟩
      exact ⟨hskip, ⟨t, (OrderedMap.get?_eq_some_iff _ _ _).2 he, hdeclared⟩, howned, hreason⟩
  · rintro ⟨hskip, ⟨t, ht, hdeclared⟩, howned, hreason⟩
    obtain ⟨m, hm, rfl⟩ := exists_mem_judgedMembers_iff.2 ⟨hdeclared, howned⟩
    exact ⟨type, t, (OrderedMap.get?_eq_some_iff _ _ _).1 ht, hskip, .member hm hreason⟩

/-- A type that is hidden is defined and not skipped, has an owner where owners count, and is hidden
    for the reason that the rule gives for the type. -/
theorem get?_exclusions_type {reason : Reason}
    (h : (f.exclusions d skip).get? (.type type) = some reason) :
    type ∉ skip ∧ isOwned f.ownership (.type type) = true ∧
      ∃ t, d.types.get? type = some t ∧ f.typeReason? type t = some reason := by
  obtain ⟨_, t, ht, hskip, hhides⟩ := get?_exclusions_iff.1 h
  cases hhides with
  | type howned hreason => exact ⟨hskip, howned, t, ht, hreason⟩

end Filter

theorem Rule.reason?_ne_allMembersExcluded (r : Rule) (tags : NameSet) (applyInclude : Bool) :
    r.reason? tags applyInclude ≠ some .allMembersExcluded := by
  unfold Rule.reason?
  split
  · decide
  · split
    · decide
    · decide

namespace Filter

variable {f : Filter} {type : Name} {t : NamedType}

/-- A type is hidden for its members if its own tags do not hide it, some member is judged, and every
    judged member is hidden by its tags. -/
theorem typeReason?_eq_allMembersExcluded_iff :
    f.typeReason? type t = some .allMembersExcluded ↔
      f.rule.reason? (f.tags.of (.type type)) (isMemberless t.definition.body) = none ∧
      f.judgedMembers type t ≠ [] ∧
      ∀ m ∈ f.judgedMembers type t, (f.reason? (.member type m.name)).isSome = true := by
  simp only [typeReason?]
  cases hown : f.rule.reason? (f.tags.of (.type type)) (isMemberless t.definition.body) with
  | some reason =>
    have hne := Rule.reason?_ne_allMembersExcluded f.rule (f.tags.of (.type type))
      (isMemberless t.definition.body)
    rw [hown] at hne
    simpa using hne
  | none =>
    have hcondition : (!(f.judgedMembers type t).isEmpty && (f.judgedMembers type t).all fun m =>
        (f.reason? (.member type m.name)).isSome) = true ↔ f.judgedMembers type t ≠ [] ∧
          ∀ m ∈ f.judgedMembers type t, (f.reason? (.member type m.name)).isSome = true := by
      rw [Bool.and_eq_true, Bool.not_eq_true', List.isEmpty_eq_false_iff, List.all_eq_true]
    simp only [true_and]
    rw [← hcondition]
    simp only [ite_eq_left_iff, reduceCtorEq, imp_false, Classical.not_not]

/-- Of a type that is hidden for its members some members have an owner where owners count, and in
    whichever declaration a member stands, it is hidden exactly if it is one of these. -/
theorem allMembersExcluded_member_iff (f : Filter) (d : Document) (skip : NameSet)
    (h : (f.exclusions d skip).get? (.type type) = some .allMembersExcluded) :
    ∃ t, d.types.get? type = some t ∧
      (∃ m ∈ t.members, isOwned f.ownership (.member type m.name) = true) ∧
      ∀ m ∈ t.members, Coordinate.member type m.name ∈ (f.exclusions d skip).keys ↔
        isOwned f.ownership (.member type m.name) = true := by
  obtain ⟨hskip, -, t, ht, hreason⟩ := get?_exclusions_type h
  obtain ⟨-, hsome, hall⟩ := typeReason?_eq_allMembersExcluded_iff.1 hreason
  refine ⟨t, ht, ?_, fun m hm => ?_⟩
  · obtain ⟨m, hm⟩ := List.exists_mem_of_ne_nil _ hsome
    exact ⟨m, mem_members_of_mem_judgedMembers hm, (List.mem_filter.1 hm).2⟩
  · rw [member_mem_exclusions_iff]
    refine ⟨fun hkey => hkey.2.2.1, fun howned => ⟨hskip, ⟨t, ht, m, hm, rfl⟩, howned, ?_⟩⟩
    -- What is judged of the member may stand in another declaration of it.
    obtain ⟨judged, hjudged, hname⟩ := exists_mem_judgedMembers_iff.2 ⟨⟨m, hm, rfl⟩, howned⟩
    rw [← hname]
    exact hall judged hjudged

end Filter

/-! ## A shop of which not everything has an owner -/

/-- A shop with an internal name, which is declared twice, and an internal note, which an extension
    declares. Its cost is not internal. -/
def notedShop : Document := ⟨[
  .type ⟨none, "Query", [], .object [] [⟨none, "shop", [], .named "Shop", []⟩]⟩,
  .type ⟨none, "Shop", [], .object []
    [⟨none, "name", [], .named "String", [tagUse "internal"]⟩,
     ⟨none, "cost", [], .named "Int", []⟩]⟩,
  .typeExtension ⟨none, "Shop", [], .object []
    [⟨none, "name", [], .named "String", []⟩,
     ⟨none, "note", [], .named "String", [tagUse "internal"]⟩]⟩]⟩

/-- What is hidden of the shop without its internal elements, where the subgraph of shops owns the
    given ones. -/
def notedShopExclusions (owned : List String) : Exclusions :=
  (Filter.mk withoutInternal.rule (notedShop.filterTags .plain)
    (some (.ofList (owned.map fun text => (text, .ofList ["shops"]))))).exclusions notedShop .empty

/-- If everything but the cost is owned, the shop is hidden for its members, the note among them. -/
theorem notedShop_hidden_for_members : ∃ t, notedShop.types.get? "Shop" = some t ∧
    (notedShopExclusions ["Shop", "Shop.name", "Shop.note"]).get? (.type "Shop")
      = some .allMembersExcluded ∧
    (∃ m ∈ t.members, m.name = "note") ∧
    Coordinate.member "Shop" "note"
      ∈ (notedShopExclusions ["Shop", "Shop.name", "Shop.note"]).keys := by
  have hhidden : (notedShopExclusions ["Shop", "Shop.name", "Shop.note"]).get? (.type "Shop")
      = some .allMembersExcluded := by decide +kernel
  obtain ⟨t, ht, -, hiff⟩ := Filter.allMembersExcluded_member_iff _ _ _ hhidden
  obtain ⟨m, hm, hname⟩ : ∃ m ∈ t.members, m.name = "note" := by
    cases ht
    decide +kernel
  refine ⟨t, ht, hhidden, ⟨m, hm, hname⟩, ?_⟩
  have hkey := (hiff m hm).2 (by rw [hname]; decide +kernel)
  rwa [hname] at hkey

/-- The cost is visible then, although the shop that declares it is hidden for its members. -/
theorem notedShop_hides_type_of_visible_member : ∃ t, notedShop.types.get? "Shop" = some t ∧
    (notedShopExclusions ["Shop", "Shop.name", "Shop.note"]).get? (.type "Shop")
      = some .allMembersExcluded ∧
    (∃ m ∈ t.members, m.name = "cost") ∧
    Coordinate.member "Shop" "cost"
      ∉ (notedShopExclusions ["Shop", "Shop.name", "Shop.note"]).keys :=
  ⟨_, rfl, by decide +kernel, by decide +kernel, by decide +kernel⟩

end SchemaView
