import SchemaView.Contract.Exclusion
import SchemaView.Proofs.CoordinateText
import SchemaView.Proofs.Marking

/-!
# The owners that a document declares

Owners are found out type by type from the definitions alone. What has an owner is a defined type or
a member of its definition, and if a definition names a subgraph for its type, all its members have
owners. Members that only an extension declares have none.

## Key results

- `namedOwners_eq_ok`: which uses of a directive give owners
- `typeOwnership_eq_ok`: what is owned of a type
- `isOwned_member_of_mem`: members of the definition of an owned type are owned
- `exists_mem_of_isOwned_member`: owned members are members of a definition
-/

namespace SchemaView

open Sdl

/-- Some use of a directive on an element names a subgraph. -/
def NamesSubgraph (directive : Name) (directives : List Directive) : Prop :=
  ∃ use ∈ usesOf directive directives, (wordArgument? "graph" use).isSome = true

instance (directive : Name) (directives : List Directive) :
    Decidable (NamesSubgraph directive directives) :=
  inferInstanceAs (Decidable (∃ use ∈ usesOf directive directives, _))

variable {symbols : GraphSymbols} {u : TypeDecl}

/-! ## One element -/

theorem NameSet.isEmpty_ofList_eq_false {names : List String} (h : names ≠ []) :
    (NameSet.ofList names).isEmpty = false := by
  obtain ⟨x, hx⟩ := List.exists_mem_of_ne_nil _ h
  have hmem : x ∈ (NameSet.ofList names).names := NameSet.mem_ofList.2 hx
  exact List.isEmpty_eq_false_iff.2 (List.ne_nil_of_mem hmem)

/-- The uses of a directive on an element give owners, at least one, exactly if one of them names a
    subgraph. -/
theorem namedOwners_eq_ok {directive : Name} {element : Coordinate} {directives : List Directive}
    {own : Option NameSet} (h : namedOwners symbols directive element directives = .ok own) :
    (∃ owners, own = some owners ∧ owners.isEmpty = false) ∨
      (own = none ∧ ¬ NamesSubgraph directive directives) := by
  rw [namedOwners] at h
  split at h
  · rename_i hnone
    cases h
    refine Or.inr ⟨rfl, ?_⟩
    rintro ⟨use, huse, hword⟩
    obtain ⟨graph, hgraph⟩ := Option.isSome_iff_exists.1 hword
    exact List.ne_nil_of_mem (List.mem_filterMap.2 ⟨use, huse, hgraph⟩) hnone
  · rename_i used hsome
    obtain ⟨subgraphs, hsubgraphs, h⟩ := bind_eq_ok_iff.1 h
    cases h
    refine Or.inl ⟨_, rfl, NameSet.isEmpty_ofList_eq_false ?_⟩
    -- There is a graph symbol, and each has a subgraph behind it.
    obtain ⟨graph, hgraph⟩ := List.exists_mem_of_ne_nil _ hsome
    obtain ⟨subgraph, hsubgraph, -⟩ := (mem_of_mapM_eq_ok hsubgraphs).1 graph hgraph
    exact List.ne_nil_of_mem hsubgraph

/-- A member is listed by its coordinate, and has owners if its type has. -/
theorem memberOwners_eq_ok {typeOwners : NameSet} {m : Member} {e : String × NameSet}
    (h : memberOwners symbols u typeOwners m = .ok e) :
    e.1 = (Coordinate.member u.name m.name).render ∧
      (typeOwners.isEmpty = false → e.2.isEmpty = false) := by
  obtain ⟨own, hown, h⟩ := bind_eq_ok_iff.1 h
  cases h
  refine ⟨rfl, fun htype => ?_⟩
  rcases namedOwners_eq_ok hown with ⟨owners, rfl, hsome⟩ | ⟨rfl, -⟩
  · exact hsome
  · exact htype

/-! ## One type -/

/-- Of a type, only the type itself and members of its definition are owned; and if the definition
    names a subgraph for the type, all its members are. -/
theorem typeOwnership_eq_ok {es : List (String × NameSet)}
    (h : typeOwnership symbols u = .ok es) :
    (∀ e ∈ es, e.2.isEmpty = false ∧ (e.1 = (Coordinate.type u.name).render ∨
      ∃ m ∈ membersOf u.body, e.1 = (Coordinate.member u.name m.name).render)) ∧
    (NamesSubgraph "join__type" u.directives → ∀ m ∈ membersOf u.body,
      (Coordinate.member u.name m.name).render ∈ es.map Prod.fst) := by
  obtain ⟨own, hown, h⟩ := bind_eq_ok_iff.1 h
  obtain ⟨listed, hlisted, h⟩ := bind_eq_ok_iff.1 h
  cases h
  obtain ⟨hlistedAll, hlistedOnly⟩ := mem_of_mapM_eq_ok hlisted
  -- What the map of members has was listed for a member.
  have hmember : ∀ e ∈ (OrderedMap.ofList listed).entries, ∃ m ∈ membersOf u.body,
      memberOwners symbols u (own.getD .empty) m = .ok e := by
    rintro ⟨key, owners⟩ he
    have hget := (OrderedMap.get?_eq_some_iff _ _ _).2 he
    exact hlistedOnly _ (OrderedMap.mem_of_get?_ofList _ _ _ hget)
  constructor
  · intro e he
    obtain ⟨he, hsome⟩ := List.mem_filter.1 he
    refine ⟨by simpa using hsome, ?_⟩
    rcases List.mem_cons.1 he with rfl | he
    · exact Or.inl rfl
    · obtain ⟨m, hm, howners⟩ := hmember e he
      exact Or.inr ⟨m, hm, (memberOwners_eq_ok howners).1⟩
  · intro hnames m hm
    obtain ⟨e, he, howners⟩ := hlistedAll m hm
    have hkey : (Coordinate.member u.name m.name).render ∈ (OrderedMap.ofList listed).keys := by
      rw [OrderedMap.mem_keys_ofList, ← (memberOwners_eq_ok howners).1]
      exact List.mem_map_of_mem he
    obtain ⟨entry, hentry, hfst⟩ := List.mem_map.1 hkey
    obtain ⟨m', -, howners'⟩ := hmember entry hentry
    -- The type has owners, so every member has.
    have htype : (own.getD .empty).isEmpty = false := by
      rcases namedOwners_eq_ok hown with ⟨owners, rfl, hsome⟩ | ⟨-, hnot⟩
      · exact hsome
      · exact absurd hnames hnot
    have hsome := (memberOwners_eq_ok howners').2 htype
    refine List.mem_map.2 ⟨entry, List.mem_filter.2 ⟨List.mem_cons_of_mem _ hentry, ?_⟩, hfst⟩
    rw [hsome]
    rfl

/-! ## All types -/

namespace Document

variable {d : Document} {o : Ownership}

/-- Whatever is listed with owners has one, and is a type or a member of its definition. -/
theorem get?_ownership {text : String} {owners : NameSet} (ho : d.ownership = .ok o)
    (h : o.get? text = some owners) :
    owners.isEmpty = false ∧ ∃ u ∈ d.definedTypes.values,
      text = (Coordinate.type u.name).render ∨
        ∃ m ∈ membersOf u.body, text = (Coordinate.member u.name m.name).render := by
  obtain ⟨symbols, -, ho⟩ := bind_eq_ok_iff.1 ho
  obtain ⟨listed, hlisted, ho⟩ := bind_eq_ok_iff.1 ho
  cases ho
  obtain ⟨es, hes, he⟩ := List.mem_flatten.1 (OrderedMap.mem_of_get?_ofList _ _ _ h)
  obtain ⟨u, hu, htype⟩ := (mem_of_mapM_eq_ok hlisted).2 es hes
  obtain ⟨hsome, htext⟩ := (typeOwnership_eq_ok htype).1 _ he
  exact ⟨hsome, u, hu, htext⟩

/-- If a definition names a subgraph for its type, its members are owned. -/
theorem isOwned_member_of_mem {type : Name} {m : Member} (ho : d.ownership = .ok o)
    (hu : d.definedTypes.get? type = some u) (hnames : NamesSubgraph "join__type" u.directives)
    (hm : m ∈ membersOf u.body) : isOwned (some o) (.member type m.name) = true := by
  have hlisted : (Coordinate.member type m.name).render ∈ o.keys := by
    obtain ⟨symbols, -, ho⟩ := bind_eq_ok_iff.1 ho
    obtain ⟨listed, hlisted, ho⟩ := bind_eq_ok_iff.1 ho
    cases ho
    have hvalue : u ∈ d.definedTypes.values := (OrderedMap.mem_values_iff _ _).2 ⟨type, hu⟩
    obtain ⟨es, hes, htype⟩ := (mem_of_mapM_eq_ok hlisted).1 u hvalue
    have hmember := (typeOwnership_eq_ok htype).2 hnames m hm
    rw [name_of_get?_definedTypes hu] at hmember
    obtain ⟨e, he, hfst⟩ := List.mem_map.1 hmember
    rw [OrderedMap.mem_keys_ofList, ← hfst]
    exact List.mem_map_of_mem (List.mem_flatten.2 ⟨es, hes, he⟩)
  obtain ⟨owners, howners⟩ := (OrderedMap.mem_keys_iff _ _).1 hlisted
  simp only [isOwned, Ownership.owners, howners, (get?_ownership ho howners).1, Bool.not_false]

/-- Of a document whose names can be parts of coordinates, owned members are members of the
    definition of their type. -/
theorem exists_mem_of_isOwned_member {type name : Name} (hnames : d.WellNamed)
    (hmember : (Coordinate.member type name).WellNamed) (ho : d.ownership = .ok o)
    (h : isOwned (some o) (.member type name) = true) :
    ∃ u, d.definedTypes.get? type = some u ∧ ∃ m ∈ membersOf u.body, m.name = name := by
  cases hget : o.get? (Coordinate.member type name).render with
  | none =>
    simp only [isOwned, Ownership.owners, hget] at h
    cases h
  | some owners =>
    obtain ⟨-, u, hu, htext⟩ := get?_ownership ho hget
    have hsites := hnames u (List.mem_append_left _ hu)
    -- The text is that of no other coordinate.
    rcases htext with htext | ⟨m, hm, htext⟩
    · cases hmember.render_inj (hsites _ List.mem_cons_self) htext
    · have hsite := hsites ⟨.member u.name m.name, m.directives⟩
        (List.mem_cons_of_mem _ (List.mem_flatMap.2 ⟨m, hm, List.mem_cons_self⟩))
      cases hmember.render_inj hsite htext
      exact ⟨u, mem_values_definedTypes_iff.1 hu, m, hm, rfl⟩

end Document

end SchemaView
