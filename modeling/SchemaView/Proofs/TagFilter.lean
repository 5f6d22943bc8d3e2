import SchemaView.Proofs.HiddenMembers

/-!
# The tag filter and its specification

Says without the computation what a rule hides where owners do not matter. `Rule.HidesTagged` is the
verdict on the tags of one element: an excluded tag decides first, then the lack of an included one.
`HiddenByTags` lists what is hidden of a type: members in any of its declarations, the arguments of
members that are declared for the first time, and the type itself for one of three reasons. The map
that `Filter.exclusions` computes has these entries and no others.

## Key results

- `mem_firstDeclarations_iff`: which declaration of a member counts
- `reason?_eq_some_iff`, `typeReason?_eq_some_iff`: the computed verdicts on tags and on types
- `typeReason?_none_iff`, `hidesFor_iff`: of a type the filter hides what is specified
- `exclusions_exact`: the whole map
-/

namespace SchemaView

open Sdl

/-! ## Verdicts on tags -/

/-- Why tags hide an element: one of them is excluded; or none is, there are include tags, and none
    of the tags is included. -/
inductive Rule.HidesTagged (r : Rule) (tags : NameSet) : Reason → Prop
  | excluded {tag : String} (htag : tag ∈ tags) (hexcluded : tag ∈ r.excluded) :
      HidesTagged r tags .excludedTag
  | notIncluded {wanted : String} (hwanted : wanted ∈ r.included)
      (hnone : ∀ tag ∈ tags, tag ∉ r.excluded ∧ tag ∉ r.included) :
      HidesTagged r tags .missingIncludeTag

theorem NameSet.meets_eq_false_iff {s t : NameSet} :
    s.meets t = false ↔ ∀ x ∈ s, x ∉ t := by
  rw [← Bool.not_eq_true, NameSet.meets_iff]
  constructor
  · exact fun h x hs ht => h ⟨x, hs, ht⟩
  · rintro h ⟨x, hs, ht⟩
    exact h x hs ht

theorem NameSet.isEmpty_eq_false_iff {s : NameSet} : s.isEmpty = false ↔ ∃ x, x ∈ s :=
  List.isEmpty_eq_false_iff_exists_mem

variable {r : Rule} {tags : NameSet} {reason : Reason}

/-- The computed verdict on tags, where include tags may be left out of account. -/
theorem Rule.reason?_eq_some_iff {applyInclude : Bool} :
    r.reason? tags applyInclude = some reason ↔
      r.HidesTagged tags reason ∧ (reason = .missingIncludeTag → applyInclude = true) := by
  unfold Rule.reason?
  cases hexcluded : tags.meets r.excluded with
  | true =>
    -- An excluded tag is found, and nothing else counts.
    obtain ⟨tag, htag, hhit⟩ := NameSet.meets_iff.1 hexcluded
    simp only [if_true, Option.some.injEq]
    constructor
    · rintro rfl
      exact ⟨.excluded htag hhit, fun h => nomatch h⟩
    · rintro ⟨h, -⟩
      cases h with
      | excluded _ _ => rfl
      | notIncluded _ hnone => exact absurd hhit (hnone tag htag).1
  | false =>
    have hclear := NameSet.meets_eq_false_iff.1 hexcluded
    simp only [Bool.false_eq_true, if_false, Option.ite_none_right_eq_some, Option.some.injEq,
      Bool.and_eq_true, Bool.not_eq_true', NameSet.isEmpty_eq_false_iff, NameSet.meets_eq_false_iff]
    constructor
    · rintro ⟨⟨⟨happly, wanted, hwanted⟩, hmiss⟩, rfl⟩
      exact ⟨.notIncluded hwanted fun tag htag => ⟨hclear tag htag, hmiss tag htag⟩,
        fun _ => happly⟩
    · rintro ⟨h, happly⟩
      cases h with
      | excluded htag hhit => exact absurd hhit (hclear _ htag)
      | notIncluded hwanted hnone =>
        exact ⟨⟨⟨happly rfl, _, hwanted⟩, fun tag htag => (hnone tag htag).2⟩, rfl⟩

/-- Tags do not hide an element if none is excluded and, unless include tags are left out of
    account, no included one is missed. -/
theorem Rule.reason?_eq_none_iff {applyInclude : Bool} : r.reason? tags applyInclude = none ↔
    ¬ r.HidesTagged tags .excludedTag ∧
      ¬ (applyInclude = true ∧ r.HidesTagged tags .missingIncludeTag) := by
  rw [Option.eq_none_iff_forall_ne_some]
  simp only [Ne, Rule.reason?_eq_some_iff]
  constructor
  · intro h
    exact ⟨fun hexcluded => h _ ⟨hexcluded, fun h => nomatch h⟩,
      fun ⟨happly, hmissing⟩ => h _ ⟨hmissing, fun _ => happly⟩⟩
  · rintro ⟨hexcluded, hmissing⟩ reason ⟨h, happly⟩
    cases h with
    | excluded htag hhit => exact hexcluded (.excluded htag hhit)
    | notIncluded hwanted hnone => exact hmissing ⟨happly rfl, .notIncluded hwanted hnone⟩

/-! ## What is hidden of a type -/

/-- A member in a list of declarations that none with its name precedes. -/
def FirstDeclared (m : Member) (ms : List Member) : Prop :=
  ∃ before after, ms = before ++ m :: after ∧ ∀ other ∈ before, other.name ≠ m.name

/-- Why a part of a type, or the type itself, is hidden by the tags of elements. -/
inductive HiddenByTags (r : Rule) (tags : TagMap) (type : Name) (t : NamedType) :
    Coordinate → Reason → Prop
  | member {m : Member} {reason : Reason} (hm : m ∈ t.members)
      (htags : r.HidesTagged (tags.of (.member type m.name)) reason) :
      HiddenByTags r tags type t (.member type m.name) reason
  | argument {m : Member} {a : InputValue} {reason : Reason} (hm : FirstDeclared m t.members)
      (ha : a ∈ m.arguments)
      (htags : r.HidesTagged (tags.of (.argument type m.name a.name)) reason) :
      HiddenByTags r tags type t (.argument type m.name a.name) reason
  | excludedType (htags : r.HidesTagged (tags.of (.type type)) .excludedTag) :
      HiddenByTags r tags type t (.type type) .excludedTag
  | memberlessType (hkind : t.definition.body.kind = .scalar ∨ t.definition.body.kind = .union)
      (htags : r.HidesTagged (tags.of (.type type)) .missingIncludeTag) :
      HiddenByTags r tags type t (.type type) .missingIncludeTag
  | emptiedType (hexcluded : ¬ r.HidesTagged (tags.of (.type type)) .excludedTag)
      (hmemberless : ¬ ((t.definition.body.kind = .scalar ∨ t.definition.body.kind = .union) ∧
        r.HidesTagged (tags.of (.type type)) .missingIncludeTag))
      (hsome : t.members ≠ [])
      (hall : ∀ m ∈ t.members, ∃ reason, r.HidesTagged (tags.of (.member type m.name)) reason) :
      HiddenByTags r tags type t (.type type) .allMembersExcluded

/-- Of the declarations of a member the first one counts. -/
theorem mem_firstDeclarations_iff {m : Member} {ms : List Member} :
    m ∈ firstDeclarations ms ↔ FirstDeclared m ms := by
  induction ms with
  | nil => simp [firstDeclarations, FirstDeclared]
  | cons n ms ih =>
    rw [firstDeclarations, List.mem_cons, List.mem_filter, ih, bne_iff_ne]
    constructor
    · rintro (rfl | ⟨⟨before, after, rfl, hbefore⟩, hdiffer⟩)
      · exact ⟨[], ms, rfl, fun _ h => absurd h List.not_mem_nil⟩
      · exact ⟨n :: before, after, rfl, List.forall_mem_cons.2 ⟨hdiffer.symm, hbefore⟩⟩
    · rintro ⟨before, after, heq, hbefore⟩
      cases before with
      | nil => exact Or.inl (List.cons.inj heq).1.symm
      | cons n' before =>
        obtain ⟨rfl, rfl⟩ := List.cons.inj heq
        obtain ⟨hdiffer, hbefore⟩ := List.forall_mem_cons.1 hbefore
        exact Or.inr ⟨⟨before, after, rfl, hbefore⟩, hdiffer.symm⟩

theorem isMemberless_iff {b : TypeBody} :
    isMemberless b = true ↔ b.kind = .scalar ∨ b.kind = .union := by
  cases b <;> simp [isMemberless, TypeBody.kind]

namespace Filter

variable {f : Filter} {type : Name} {t : NamedType} {c : Coordinate}

/-- The computed verdict on a type: that on its own tags, or else that on its judged members. -/
theorem typeReason?_eq_some_iff : f.typeReason? type t = some reason ↔
    f.rule.reason? (f.tags.of (.type type)) (isMemberless t.definition.body) = some reason ∨
      (reason = .allMembersExcluded ∧
        f.rule.reason? (f.tags.of (.type type)) (isMemberless t.definition.body) = none ∧
        f.judgedMembers type t ≠ [] ∧
        ∀ m ∈ f.judgedMembers type t, (f.reason? (.member type m.name)).isSome = true) := by
  by_cases hall : reason = .allMembersExcluded
  · have hne := Rule.reason?_ne_allMembersExcluded f.rule (f.tags.of (.type type))
      (isMemberless t.definition.body)
    rw [hall, typeReason?_eq_allMembersExcluded_iff]
    simp [hne]
  · simp only [hall, false_and, or_false, typeReason?]
    split
    · rename_i own hown
      rw [hown]
    · rename_i hown
      rw [hown]
      split
      · simp [eq_comm, hall]
      · rfl

variable {rule : Rule} {tags : TagMap}

/-- Where owners do not matter, the members that are judged are those that are declared for the
    first time. -/
theorem judgedMembers_none :
    (Filter.mk rule tags none).judgedMembers type t = firstDeclarations t.members := by
  rw [judgedMembers]
  exact List.filter_eq_self.2 fun _ _ => rfl

/-- What holds of all names of members holds of the names of those that count. -/
theorem forall_judgedMembers_none (p : Name → Prop) :
    (∀ m ∈ (Filter.mk rule tags none).judgedMembers type t, p m.name) ↔
      ∀ m ∈ t.members, p m.name := by
  rw [judgedMembers_none]
  constructor
  · intro h m hm
    obtain ⟨first, hfirst, hname⟩ := exists_mem_firstDeclarations hm
    rw [← hname]
    exact h first hfirst
  · exact fun h m hm => h m (mem_of_mem_firstDeclarations hm)

theorem judgedMembers_none_eq_nil_iff :
    (Filter.mk rule tags none).judgedMembers type t = [] ↔ t.members = [] := by
  have h : (∀ m ∈ (Filter.mk rule tags none).judgedMembers type t, False) ↔
      ∀ m ∈ t.members, False := forall_judgedMembers_none fun _ => False
  simpa only [imp_false, ← List.eq_nil_iff_forall_not_mem] using h

theorem reason?_mk_eq_some_iff {ownership : Option Ownership} :
    (Filter.mk rule tags ownership).reason? c = some reason ↔
      rule.HidesTagged (tags.of c) reason := by
  rw [reason?, Rule.reason?_eq_some_iff]
  simp

/-- Where owners do not matter, the computed verdict on a type is the specified one. -/
theorem typeReason?_none_iff : (Filter.mk rule tags none).typeReason? type t = some reason ↔
    HiddenByTags rule tags type t (.type type) reason := by
  have hmembers : (∀ m ∈ (Filter.mk rule tags none).judgedMembers type t,
        ((Filter.mk rule tags none).reason? (.member type m.name)).isSome = true) ↔
      ∀ m ∈ t.members, ∃ reason, rule.HidesTagged (tags.of (.member type m.name)) reason := by
    simp only [Option.isSome_iff_exists, reason?_mk_eq_some_iff]
    exact forall_judgedMembers_none fun name =>
      ∃ reason, rule.HidesTagged (tags.of (.member type name)) reason
  rw [typeReason?_eq_some_iff, hmembers, Ne, judgedMembers_none_eq_nil_iff,
    Rule.reason?_eq_some_iff, Rule.reason?_eq_none_iff, isMemberless_iff]
  constructor
  · rintro (⟨htags, hkind⟩ | ⟨rfl, ⟨hexcluded, hmemberless⟩, hsome, hall⟩)
    · cases htags with
      | excluded htag hhit => exact .excludedType (.excluded htag hhit)
      | notIncluded hwanted hnone => exact .memberlessType (hkind rfl) (.notIncluded hwanted hnone)
    · exact .emptiedType hexcluded hmemberless hsome hall
  · intro h
    cases h with
    | excludedType htags => exact Or.inl ⟨htags, fun h => nomatch h⟩
    | memberlessType hkind htags => exact Or.inl ⟨htags, fun _ => hkind⟩
    | emptiedType hexcluded hmemberless hsome hall =>
      exact Or.inr ⟨rfl, ⟨hexcluded, hmemberless⟩, hsome, hall⟩

/-- Where owners do not matter, a filter hides of a type what is specified, for the reasons that are
    specified. -/
theorem hidesFor_iff : (Filter.mk rule tags none).HidesFor type t c reason ↔
    HiddenByTags rule tags type t c reason := by
  constructor
  · intro h
    cases h with
    | argument hm ha hreason =>
      rw [judgedMembers_none, mem_firstDeclarations_iff] at hm
      exact .argument hm ha (reason?_mk_eq_some_iff.1 hreason)
    | member hm hreason =>
      exact .member (mem_members_of_mem_judgedMembers hm) (reason?_mk_eq_some_iff.1 hreason)
    | type _ hreason => exact typeReason?_none_iff.1 hreason
  · intro h
    cases h with
    | @member m _ hm htags =>
      -- The declaration that counts has the coordinate of the given one.
      obtain ⟨first, hfirst, hname⟩ := exists_mem_firstDeclarations hm
      rw [← hname] at htags ⊢
      rw [← judgedMembers_none] at hfirst
      exact .member hfirst (reason?_mk_eq_some_iff.2 htags)
    | argument hm ha htags =>
      rw [← mem_firstDeclarations_iff, ← judgedMembers_none] at hm
      exact .argument hm ha (reason?_mk_eq_some_iff.2 htags)
    | excludedType htags => exact .type rfl (typeReason?_none_iff.2 (.excludedType htags))
    | memberlessType hkind htags =>
      exact .type rfl (typeReason?_none_iff.2 (.memberlessType hkind htags))
    | emptiedType hexcluded hmemberless hsome hall =>
      exact .type rfl (typeReason?_none_iff.2 (.emptiedType hexcluded hmemberless hsome hall))

/-- Where owners do not matter, the map of what a rule hides has an entry exactly for what is
    specified of the types that are taken into account, with the reason that is specified. -/
theorem exclusions_exact (rule : Rule) (tags : TagMap) (d : Document) (skip : NameSet)
    (c : Coordinate) (reason : Reason) :
    ((Filter.mk rule tags none).exclusions d skip).get? c = some reason ↔
      ∃ type t, d.types.get? type = some t ∧ type ∉ skip ∧
        HiddenByTags rule tags type t c reason := by
  rw [get?_exclusions_iff]
  simp only [hidesFor_iff]

end Filter

end SchemaView
