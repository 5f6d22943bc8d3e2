import SchemaView.Proofs.SymbolUses

/-!
# Owners and their definition

Says without the computation who owns what. A member is owned by the subgraphs behind the symbols
that are used on it, or if none are, by those behind the symbols on its type; a type is owned by the
subgraphs behind the symbols on it and by the owners of its members. Where no use of a symbol fails,
`Document.ownership` lists every owned type and member with these owners.

## Key results

- `typeOwnership_of_resolved`, `ownership_of_resolved`: what is computed if no use fails
- `mem_ownersOfType_iff`, `mem_ownerSymbols_iff`: the computed sets are the owners
- `get?_ownership_iff`: the entries of the map are the owned elements
- `ownership_exact`: failures and owners
-/

namespace SchemaView

open Sdl

/-! ## Owners -/

/-- A member in a list of declarations that none with its name follows. -/
def LastDeclared (m : Member) (ms : List Member) : Prop :=
  ∃ before after, ms = before ++ m :: after ∧ ∀ other ∈ after, other.name ≠ m.name

namespace Document

/-- A member of a definition is owned by the subgraphs behind the symbols that are used on it, or if
    none are, by those behind the symbols on the type. -/
inductive OwnsMember (d : Document) (subgraph : String) (u : TypeDecl) (m : Member) : Prop
  | named {symbol : Name} (hsymbol : symbol ∈ memberGraphs u m)
      (hstands : d.StandsFor symbol subgraph) : OwnsMember d subgraph u m
  | inherited {symbol : Name} (hnone : memberGraphs u m = []) (hsymbol : symbol ∈ typeGraphs u)
      (hstands : d.StandsFor symbol subgraph) : OwnsMember d subgraph u m

/-- What a subgraph owns: members of definitions, by their last declarations; types that use a
    symbol of the subgraph; and types of which it owns a member. -/
inductive Owns (d : Document) (subgraph : String) : Coordinate → Prop
  | member {u : TypeDecl} {m : Member} (hu : u ∈ d.definedTypes.values)
      (hm : LastDeclared m (membersOf u.body)) (howns : d.OwnsMember subgraph u m) :
      Owns d subgraph (.member u.name m.name)
  | type {u : TypeDecl} {symbol : Name} (hu : u ∈ d.definedTypes.values)
      (hsymbol : symbol ∈ typeGraphs u) (hstands : d.StandsFor symbol subgraph) :
      Owns d subgraph (.type u.name)
  | typeOfMember {u : TypeDecl} {m : Member} (hu : u ∈ d.definedTypes.values)
      (hm : LastDeclared m (membersOf u.body)) (howns : d.OwnsMember subgraph u m) :
      Owns d subgraph (.type u.name)

/-- The owners of an element that has some. -/
structure HasOwners (d : Document) (c : Coordinate) (owners : NameSet) : Prop where
  owned : ∃ subgraph, d.Owns subgraph c
  mem_iff : ∀ subgraph, subgraph ∈ owners ↔ d.Owns subgraph c

end Document

/-! ## Owners where no use fails -/

variable {symbols : GraphSymbols}

/-- The subgraphs behind graph symbols. -/
def subgraphsBehind (symbols : GraphSymbols) (names : List Name) : NameSet :=
  .ofList (names.filterMap fun name => (symbols.get? name).join)

theorem mem_subgraphsBehind {names : List Name} {subgraph : String} :
    subgraph ∈ subgraphsBehind symbols names ↔
      ∃ name ∈ names, symbols.get? name = some (some subgraph) := by
  simp only [subgraphsBehind, NameSet.mem_ofList, List.mem_filterMap, Option.join_eq_some_iff]

/-- The graph symbols that give the owners of a member. -/
def ownerSymbols (u : TypeDecl) (m : Member) : List Name :=
  if (memberGraphs u m).isEmpty then typeGraphs u else memberGraphs u m

/-- The owners of the members of a definition, by the texts of their coordinates. -/
def ownedMembers (symbols : GraphSymbols) (u : TypeDecl) : OrderedMap String NameSet :=
  .ofList ((membersOf u.body).map fun m =>
    ((Coordinate.member u.name m.name).render, subgraphsBehind symbols (ownerSymbols u m)))

/-- The owners of the type of a definition. -/
def ownersOfType (symbols : GraphSymbols) (u : TypeDecl) : NameSet :=
  (ownedMembers symbols u).values.foldl NameSet.union (subgraphsBehind symbols (typeGraphs u))

/-- What is owned of a type, by the texts of the coordinates. -/
def ownerEntries (symbols : GraphSymbols) (u : TypeDecl) : List (String × NameSet) :=
  (((Coordinate.type u.name).render, ownersOfType symbols u)
    :: (ownedMembers symbols u).entries).filter fun e => !e.2.isEmpty

/-- Symbols that all have a subgraph give the subgraphs behind them, if there are any symbols. -/
theorem namedOwners_of_resolved {directive : Name} {element : Coordinate}
    {directives : List Directive} (h : ∀ symbol ∈ graphsNamed directive directives,
      ∃ subgraph, symbols.get? symbol = some (some subgraph)) :
    namedOwners symbols directive element directives =
      .ok (if (graphsNamed directive directives).isEmpty then none
        else some (subgraphsBehind symbols (graphsNamed directive directives))) := by
  rw [graphsNamed] at h ⊢
  unfold namedOwners
  split
  · rename_i hnone
    rw [hnone]
    rfl
  · rename_i hsome
    have hnonempty : (List.filterMap (wordArgument? "graph") (usesOf directive directives)).isEmpty
        = false := List.isEmpty_eq_false_iff.2 hsome
    have hresolve : ∀ symbol ∈ List.filterMap (wordArgument? "graph") (usesOf directive directives),
        resolveGraph symbols element symbol
          = .ok ((symbols.get? symbol).join.getD symbol) := by
      intro symbol hsymbol
      obtain ⟨subgraph, hget⟩ := h symbol hsymbol
      simp [resolveGraph, hget]
    rw [mapM_eq_ok hresolve, hnonempty]
    show Except.ok _ = Except.ok _
    congr 2
    refine NameSet.ext fun subgraph => ?_
    rw [NameSet.mem_ofList, mem_subgraphsBehind, List.mem_map]
    refine exists_congr fun symbol => and_congr_right fun hsymbol => ?_
    obtain ⟨found, hget⟩ := h symbol hsymbol
    simp [hget]

/-- If every symbol that a definition uses has a subgraph, the owners of its type can be found
    out. -/
theorem typeOwnership_of_resolved {u : TypeDecl}
    (h : ∀ use ∈ symbolUses u, ∃ subgraph, symbols.get? use.1 = some (some subgraph)) :
    typeOwnership symbols u = .ok (ownerEntries symbols u) := by
  have htype : ∀ symbol ∈ typeGraphs u, ∃ subgraph, symbols.get? symbol = some (some subgraph) :=
    fun symbol hsymbol => h (symbol, .type u.name)
      (List.mem_append_left _ (List.mem_map_of_mem hsymbol))
  have hmember : ∀ m ∈ membersOf u.body, ∀ symbol ∈ memberGraphs u m,
      ∃ subgraph, symbols.get? symbol = some (some subgraph) := fun m hm symbol hsymbol =>
    h (symbol, .member u.name m.name) (List.mem_append_right _
      (List.mem_flatMap.2 ⟨m, hm, List.mem_map_of_mem hsymbol⟩))
  -- Without a symbol on the type there is no subgraph behind any.
  have hown : (if (typeGraphs u).isEmpty then none
      else some (subgraphsBehind symbols (typeGraphs u))).getD .empty
        = subgraphsBehind symbols (typeGraphs u) := by
    split
    · rename_i hempty
      rw [List.isEmpty_iff.1 hempty]
      rfl
    · rfl
  have hmembers : (membersOf u.body).mapM
      (memberOwners symbols u (subgraphsBehind symbols (typeGraphs u))) =
        .ok ((membersOf u.body).map fun m => ((Coordinate.member u.name m.name).render,
          subgraphsBehind symbols (ownerSymbols u m))) := by
    refine mapM_eq_ok fun m hm => ?_
    have hresolved := hmember m hm
    rw [memberGraphs_eq hm] at hresolved
    rw [memberOwners, namedOwners_of_resolved hresolved, ← memberGraphs_eq hm, ownerSymbols]
    show Except.ok _ = Except.ok _
    split <;> rfl
  rw [typeOwnership, namedOwners_of_resolved htype, ← typeGraphs]
  show (membersOf u.body).mapM (memberOwners symbols u ((if (typeGraphs u).isEmpty then none
    else some (subgraphsBehind symbols (typeGraphs u))).getD .empty)) >>= _ = _
  rw [hown, hmembers]
  rfl

/-- If every used symbol has a subgraph, the owners can be found out. -/
theorem Document.ownership_of_resolved {d : Document} (hsymbols : d.graphSymbols = .ok symbols)
    (h : ∀ use ∈ d.symbolUses, ∃ subgraph, symbols.get? use.1 = some (some subgraph)) :
    d.ownership = .ok (.ofList (d.definedTypes.values.flatMap (ownerEntries symbols))) := by
  have htypes : d.definedTypes.values.mapM (typeOwnership symbols)
      = .ok (d.definedTypes.values.map (ownerEntries symbols)) :=
    mapM_eq_ok fun u hu => typeOwnership_of_resolved fun use huse =>
      h use (List.mem_flatMap.2 ⟨u, hu, huse⟩)
  rw [ownership, hsymbols]
  show d.definedTypes.values.mapM (typeOwnership symbols) >>= _ = _
  rw [htypes, List.flatMap_def]
  rfl

/-! ## Who owns what -/

/-- Of the declarations of a member only one is the last. -/
theorem LastDeclared.unique {m m' : Member} {ms : List Member} (h : LastDeclared m ms)
    (h' : LastDeclared m' ms) (hname : m'.name = m.name) : m' = m := by
  -- A map from names to declarations has the last one of each name.
  have hget : ∀ x, LastDeclared x ms →
      (OrderedMap.ofList (ms.map fun m => (m.name, m))).get? x.name = some x := by
    rintro x ⟨before, after, rfl, hafter⟩
    exact OrderedMap.get?_ofList_map_iff.2 ⟨before, x, after, rfl, rfl, rfl, hafter⟩
  have hm' := hget m' h'
  rw [hname, hget m h] at hm'
  exact (Option.some.inj hm').symm

theorem LastDeclared.mem {m : Member} {ms : List Member} (h : LastDeclared m ms) : m ∈ ms := by
  obtain ⟨before, after, rfl, -⟩ := h
  exact List.mem_append_right _ List.mem_cons_self

namespace Document

variable {d : Document} {u : TypeDecl} {c : Coordinate} {subgraph : String}

/-- The coordinates of a type and of its members are well-named in a document of such names. -/
theorem WellNamed.of_mem_values (h : d.WellNamed) (hu : u ∈ d.definedTypes.values) :
    (Coordinate.type u.name).WellNamed ∧
      ∀ m ∈ membersOf u.body, (Coordinate.member u.name m.name).WellNamed := by
  have hsites := h u (List.mem_append_left _ hu)
  refine ⟨hsites _ List.mem_cons_self, fun m hm => ?_⟩
  exact hsites ⟨.member u.name m.name, m.directives⟩
    (List.mem_cons_of_mem _ (List.mem_flatMap.2 ⟨m, hm, List.mem_cons_self⟩))

/-- What is owned is a type or a member, and a part of a defined type. -/
theorem Owns.exists_definition (h : d.Owns subgraph c) :
    ∃ u ∈ d.definedTypes.values, c = .type u.name ∨
      ∃ m, LastDeclared m (membersOf u.body) ∧ c = .member u.name m.name := by
  cases h with
  | @member u m hu hm _ => exact ⟨u, hu, Or.inr ⟨m, hm, rfl⟩⟩
  | @type u _ hu _ _ => exact ⟨u, hu, Or.inl rfl⟩
  | @typeOfMember u _ hu _ _ => exact ⟨u, hu, Or.inl rfl⟩

theorem Owns.wellNamed (h : d.Owns subgraph c) (hnames : d.WellNamed) : c.WellNamed := by
  obtain ⟨u, hu, rfl | ⟨m, hm, rfl⟩⟩ := h.exists_definition
  · exact (hnames.of_mem_values hu).1
  · exact (hnames.of_mem_values hu).2 m hm.mem

/-- Whoever owns a member owns its type. -/
theorem Owns.type_of_member {type name : Name} (h : d.Owns subgraph (.member type name)) :
    d.Owns subgraph (.type type) := by
  cases h with
  | member hu hm howns => exact .typeOfMember hu hm howns

/-- Definitions that count and have one name are one definition. -/
theorem eq_of_mem_values {u' : TypeDecl} (hu : u ∈ d.definedTypes.values)
    (hu' : u' ∈ d.definedTypes.values) (hname : u'.name = u.name) : u' = u := by
  rw [mem_values_definedTypes_iff] at hu hu'
  rw [hname, hu] at hu'
  exact (Option.some.inj hu').symm

theorem owns_member_iff {m : Member} (hu : u ∈ d.definedTypes.values)
    (hm : LastDeclared m (membersOf u.body)) :
    d.Owns subgraph (.member u.name m.name) ↔ d.OwnsMember subgraph u m := by
  refine ⟨fun h => ?_, .member hu hm⟩
  generalize hc : Coordinate.member u.name m.name = c at h
  cases h with
  | @member u' m' hu' hm' howns =>
    obtain ⟨htype, hname⟩ := Coordinate.member.inj hc
    obtain rfl := eq_of_mem_values hu hu' htype.symm
    obtain rfl := hm.unique hm' hname.symm
    exact howns
  | type _ _ _ => cases hc
  | typeOfMember _ _ _ => cases hc

theorem owns_type_iff (hu : u ∈ d.definedTypes.values) : d.Owns subgraph (.type u.name) ↔
    (∃ symbol ∈ typeGraphs u, d.StandsFor symbol subgraph) ∨
      ∃ m, LastDeclared m (membersOf u.body) ∧ d.OwnsMember subgraph u m := by
  constructor
  · intro h
    generalize hc : Coordinate.type u.name = c at h
    cases h with
    | member _ _ _ => cases hc
    | @type u' symbol hu' hsymbol hstands =>
      obtain rfl := eq_of_mem_values hu hu' (Coordinate.type.inj hc).symm
      exact Or.inl ⟨symbol, hsymbol, hstands⟩
    | @typeOfMember u' m hu' hm howns =>
      obtain rfl := eq_of_mem_values hu hu' (Coordinate.type.inj hc).symm
      exact Or.inr ⟨m, hm, howns⟩
  · rintro (⟨symbol, hsymbol, hstands⟩ | ⟨m, hm, howns⟩)
    · exact .type hu hsymbol hstands
    · exact .typeOfMember hu hm howns

/-! ## Computed owners -/

variable {symbols : GraphSymbols}

/-- The computed owners of a member are its owners. -/
theorem mem_ownerSymbols_iff {m : Member} (hsymbols : d.graphSymbols = .ok symbols) :
    subgraph ∈ subgraphsBehind symbols (ownerSymbols u m) ↔ d.OwnsMember subgraph u m := by
  simp only [mem_subgraphsBehind, ← standsFor_iff hsymbols, ownerSymbols]
  constructor
  · rintro ⟨symbol, hsymbol, hstands⟩
    split at hsymbol
    · rename_i hnone
      exact .inherited (List.isEmpty_iff.1 hnone) hsymbol hstands
    · exact .named hsymbol hstands
  · intro h
    cases h with
    | @named symbol hsymbol hstands =>
      have hsome : ¬ (memberGraphs u m).isEmpty = true := by
        rw [List.isEmpty_iff]
        exact List.ne_nil_of_mem hsymbol
      exact ⟨symbol, by rwa [if_neg hsome], hstands⟩
    | @inherited symbol hnone hsymbol hstands =>
      exact ⟨symbol, by rwa [if_pos (List.isEmpty_iff.2 hnone)], hstands⟩

/-- The map of the members of a definition has the owners of each by its last declaration. -/
theorem get?_ownedMembers_iff (hnames : d.WellNamed) (hu : u ∈ d.definedTypes.values)
    {text : String} {owners : NameSet} : (ownedMembers symbols u).get? text = some owners ↔
      ∃ m, LastDeclared m (membersOf u.body) ∧ (Coordinate.member u.name m.name).render = text ∧
        subgraphsBehind symbols (ownerSymbols u m) = owners := by
  -- Members have one text only if they have one name.
  have htext : ∀ m ∈ membersOf u.body, ∀ other ∈ membersOf u.body,
      (Coordinate.member u.name other.name).render = (Coordinate.member u.name m.name).render ↔
        other.name = m.name := by
    intro m hm other hother
    have hnamed := (hnames.of_mem_values hu).2
    constructor
    · intro h
      exact (Coordinate.member.inj ((hnamed other hother).render_inj (hnamed m hm) h)).2
    · intro h
      rw [h]
  rw [ownedMembers, OrderedMap.get?_ofList_map_iff]
  constructor
  · rintro ⟨before, m, after, hms, hrender, howners, hafter⟩
    have hmem : ∀ other ∈ m :: after, other ∈ membersOf u.body := fun other hother =>
      hms ▸ List.mem_append_right _ hother
    refine ⟨m, ⟨before, after, hms, fun other hother hname => ?_⟩, hrender, howners⟩
    exact hafter other hother (((htext m (hmem m List.mem_cons_self) other
      (hmem other (List.mem_cons_of_mem _ hother))).2 hname).trans hrender)
  · rintro ⟨m, ⟨before, after, hms, hafter⟩, hrender, howners⟩
    have hmem : ∀ other ∈ m :: after, other ∈ membersOf u.body := fun other hother =>
      hms ▸ List.mem_append_right _ hother
    refine ⟨before, m, after, hms, hrender, howners, fun other hother hsame => ?_⟩
    exact hafter other hother ((htext m (hmem m List.mem_cons_self) other
      (hmem other (List.mem_cons_of_mem _ hother))).1 (hsame.trans hrender.symm))

/-- The computed owners of a type are its owners. -/
theorem mem_ownersOfType_iff (hnames : d.WellNamed) (hsymbols : d.graphSymbols = .ok symbols)
    (hu : u ∈ d.definedTypes.values) :
    subgraph ∈ ownersOfType symbols u ↔ d.Owns subgraph (.type u.name) := by
  rw [ownersOfType, NameSet.mem_foldl_union, owns_type_iff hu, mem_subgraphsBehind]
  simp only [← standsFor_iff hsymbols, OrderedMap.mem_values_iff, get?_ownedMembers_iff hnames hu]
  refine or_congr_right ⟨?_, ?_⟩
  · rintro ⟨_, ⟨_, m, hm, -, rfl⟩, hmem⟩
    exact ⟨m, hm, (mem_ownerSymbols_iff hsymbols).1 hmem⟩
  · rintro ⟨m, hm, howns⟩
    exact ⟨_, ⟨_, m, hm, rfl, rfl⟩, (mem_ownerSymbols_iff hsymbols).2 howns⟩

theorem HasOwners.unique {owners owners' : NameSet} (h : d.HasOwners c owners)
    (h' : d.HasOwners c owners') : owners = owners' :=
  NameSet.ext fun subgraph => (h.mem_iff subgraph).trans (h'.mem_iff subgraph).symm

theorem HasOwners.isEmpty_eq_false {owners : NameSet} (h : d.HasOwners c owners) :
    owners.isEmpty = false := by
  obtain ⟨subgraph, howns⟩ := h.owned
  exact List.isEmpty_eq_false_iff_exists_mem.2 ⟨subgraph, (h.mem_iff subgraph).2 howns⟩

theorem hasOwners_iff {owners : NameSet}
    (hmem : ∀ subgraph, subgraph ∈ owners ↔ d.Owns subgraph c) :
    d.HasOwners c owners ↔ owners.isEmpty = false := by
  refine ⟨HasOwners.isEmpty_eq_false, fun hsome => ⟨?_, hmem⟩⟩
  obtain ⟨subgraph, hsubgraph⟩ := List.isEmpty_eq_false_iff_exists_mem.1 hsome
  exact ⟨subgraph, (hmem subgraph).1 hsubgraph⟩

/-- The computed sets are the owners of a type and of its members, as far as there are any. -/
theorem hasOwners_computed (hnames : d.WellNamed) (hsymbols : d.graphSymbols = .ok symbols)
    (hu : u ∈ d.definedTypes.values) :
    (d.HasOwners (.type u.name) (ownersOfType symbols u) ↔
      (ownersOfType symbols u).isEmpty = false) ∧
    ∀ m, LastDeclared m (membersOf u.body) →
      (d.HasOwners (.member u.name m.name) (subgraphsBehind symbols (ownerSymbols u m)) ↔
        (subgraphsBehind symbols (ownerSymbols u m)).isEmpty = false) := by
  constructor
  · exact hasOwners_iff fun subgraph => mem_ownersOfType_iff hnames hsymbols hu
  · intro m hm
    refine hasOwners_iff fun subgraph => ?_
    rw [owns_member_iff hu hm, mem_ownerSymbols_iff hsymbols]

/-- The entries of a definition are the owned elements among its type and its members. -/
theorem mem_ownerEntries_iff (hnames : d.WellNamed) (hsymbols : d.graphSymbols = .ok symbols)
    (hu : u ∈ d.definedTypes.values) {text : String} {owners : NameSet} :
    (text, owners) ∈ ownerEntries symbols u ↔
      ∃ c, c.typeName = u.name ∧ c.render = text ∧ d.HasOwners c owners := by
  obtain ⟨htype, hmember⟩ := hasOwners_computed hnames hsymbols hu
  rw [ownerEntries, List.mem_filter, List.mem_cons, ← OrderedMap.get?_eq_some_iff,
    get?_ownedMembers_iff hnames hu, Bool.not_eq_true', Prod.mk.injEq]
  constructor
  · rintro ⟨⟨rfl, rfl⟩ | ⟨m, hm, rfl, rfl⟩, hsome⟩
    · exact ⟨.type u.name, rfl, rfl, htype.2 hsome⟩
    · exact ⟨.member u.name m.name, rfl, rfl, (hmember m hm).2 hsome⟩
  · rintro ⟨c, hc, rfl, howners⟩
    refine ⟨?_, howners.isEmpty_eq_false⟩
    obtain ⟨subgraph, howns⟩ := howners.owned
    -- What is owned of the type is the type or a member of its definition.
    obtain ⟨u', hu', rfl | ⟨m, hm, rfl⟩⟩ := howns.exists_definition
    · obtain rfl := eq_of_mem_values hu hu' hc
      have hmem := (mem_ownersOfType_iff hnames hsymbols hu).2 howns
      have hsome := List.isEmpty_eq_false_iff_exists_mem.2 ⟨subgraph, hmem⟩
      exact Or.inl ⟨rfl, howners.unique (htype.2 hsome)⟩
    · obtain rfl := eq_of_mem_values hu hu' hc
      have hmem := (mem_ownerSymbols_iff hsymbols).2 ((owns_member_iff hu hm).1 howns)
      have hsome := List.isEmpty_eq_false_iff_exists_mem.2 ⟨subgraph, hmem⟩
      exact Or.inr ⟨m, hm, rfl, ((hmember m hm).2 hsome).unique howners⟩

/-- The map of owners has an entry exactly for every owned element, with its owners. -/
theorem get?_ownership_iff {o : Ownership} (hnames : d.WellNamed) (ho : d.ownership = .ok o)
    {text : String} {owners : NameSet} :
    o.get? text = some owners ↔ ∃ c, c.render = text ∧ d.HasOwners c owners := by
  obtain ⟨symbols, hsymbols, hresolved⟩ := exists_graphSymbols_of_ownership ho
  rw [ownership_of_resolved hsymbols hresolved] at ho
  cases ho
  have hmem : ∀ text owners,
      (text, owners) ∈ d.definedTypes.values.flatMap (ownerEntries symbols) ↔
        ∃ c, c.render = text ∧ d.HasOwners c owners := by
    intro text owners
    rw [List.mem_flatMap]
    constructor
    · rintro ⟨u, hu, he⟩
      obtain ⟨c, -, htext, howners⟩ := (mem_ownerEntries_iff hnames hsymbols hu).1 he
      exact ⟨c, htext, howners⟩
    · rintro ⟨c, htext, howners⟩
      obtain ⟨subgraph, howns⟩ := howners.owned
      obtain ⟨u, hu, hc⟩ := howns.exists_definition
      refine ⟨u, hu, (mem_ownerEntries_iff hnames hsymbols hu).2 ⟨c, ?_, htext, howners⟩⟩
      rcases hc with rfl | ⟨m, -, rfl⟩ <;> rfl
  rw [OrderedMap.get?_ofList_of_functional, hmem]
  intro text owners owners' h h'
  obtain ⟨c, hc, howners⟩ := (hmem text owners).1 h
  obtain ⟨c', hc', howners'⟩ := (hmem text owners').1 h'
  -- One text is that of one element only.
  obtain ⟨subgraph, howns⟩ := howners.owned
  obtain ⟨subgraph', howns'⟩ := howners'.owned
  obtain rfl := (howns'.wellNamed hnames).render_inj (howns.wellNamed hnames) (hc'.trans hc.symm)
  exact howners.unique howners'

/-- The owners of a document cannot be found out exactly if the enum of graph symbols is not defined
    or a symbol is used, on a definition that counts or one of its members, that stands for no
    subgraph, and then the first such use is named. Otherwise, in a document whose names can be
    parts of coordinates, as those of every document that was read can, the map of owners lists the
    owned types and members with their owners, and no arguments; and whoever owns a member owns its
    type. -/
theorem ownership_exact (d : Document) :
    (∀ e, d.ownership = .error e ↔
      (¬ d.DefinesGraphs ∧ e = .noSubgraphEnum) ∨
      (d.DefinesGraphs ∧ ∃ before symbol element after,
        d.symbolUses = before ++ (symbol, element) :: after ∧
        (∀ use ∈ before, ∃ subgraph, d.StandsFor use.1 subgraph) ∧
        (∀ subgraph, ¬ d.StandsFor symbol subgraph) ∧ e = .undeclaredGraph symbol element)) ∧
    (d.WellNamed → ∀ o, d.ownership = .ok o →
      (∀ text owners, o.get? text = some owners ↔
        ∃ c, c.argumentName? = none ∧ c.render = text ∧ d.HasOwners c owners) ∧
      ∀ u ∈ d.definedTypes.values, ∀ m ∈ membersOf u.body, ∀ owners,
        o.get? (Coordinate.member u.name m.name).render = some owners →
          ∃ all, o.get? (Coordinate.type u.name).render = some all ∧
            ∀ subgraph ∈ owners, subgraph ∈ all) := by
  refine ⟨fun e => ownership_eq_error_iff, fun hnames o ho => ⟨fun text owners => ?_, ?_⟩⟩
  · rw [get?_ownership_iff hnames ho]
    refine exists_congr fun c => ?_
    constructor
    · rintro ⟨htext, howners⟩
      obtain ⟨subgraph, howns⟩ := howners.owned
      obtain ⟨u, -, rfl | ⟨m, -, rfl⟩⟩ := howns.exists_definition
      · exact ⟨rfl, htext, howners⟩
      · exact ⟨rfl, htext, howners⟩
    · exact fun h => h.2
  · intro u hu m hm owners hget
    obtain ⟨c, htext, howners⟩ := (get?_ownership_iff hnames ho).1 hget
    obtain ⟨subgraph, howns⟩ := howners.owned
    obtain rfl := (howns.wellNamed hnames).render_inj ((hnames.of_mem_values hu).2 m hm) htext
    -- The owners of the type are there, since it has the owner of the member.
    obtain ⟨symbols, hsymbols, -⟩ := exists_graphSymbols_of_ownership ho
    have hmem := (mem_ownersOfType_iff hnames hsymbols hu).2 howns.type_of_member
    have hall := (hasOwners_computed hnames hsymbols hu).1.2
      (List.isEmpty_eq_false_iff_exists_mem.2 ⟨subgraph, hmem⟩)
    refine ⟨_, (get?_ownership_iff hnames ho).2 ⟨_, rfl, hall⟩, fun owner howner => ?_⟩
    exact (hall.mem_iff owner).2 ((howners.mem_iff owner).1 howner).type_of_member

end Document

/-! ## A shop whose stock is counted elsewhere -/

/-- A use of a directive that names a graph symbol. -/
def fromGraph (directive graph : Name) : Directive := ⟨directive, [⟨"graph", .enum graph⟩]⟩

/-- A graph symbol with the subgraph that it stands for. -/
def graphSymbol (symbol : Name) (subgraph : String) : EnumValue :=
  ⟨none, symbol, [⟨"join__graph", [⟨"name", .string ⟨subgraph, false⟩⟩]⟩]⟩

/-- A shop whose count is declared twice, the second time with a graph symbol of its own. One symbol
    stands for no subgraph. Of the sizes one uses a symbol by the directive for values of enums, and
    one by that for fields, which does not count there. -/
def countedShop (symbol : Name) : Document := ⟨[
  .type ⟨none, "join__Graph", [], .enum
    [graphSymbol "SHOP" "shops", graphSymbol "STOCK" "stocks", ⟨none, "LOST", []⟩]⟩,
  .type ⟨none, "Shop", [fromGraph "join__type" "SHOP"], .object []
    [⟨none, "name", [], .named "String", []⟩,
     ⟨none, "count", [], .named "Int", []⟩,
     ⟨none, "count", [], .named "Int", [fromGraph "join__field" symbol]⟩]⟩,
  .type ⟨none, "Size", [fromGraph "join__type" "SHOP"], .enum
    [⟨none, "LARGE", [fromGraph "join__enumValue" "STOCK"]⟩,
     ⟨none, "SMALL", [fromGraph "join__field" "STOCK"]⟩]⟩]⟩

/-- The second declaration of the count decides: the subgraph behind its symbol owns the count and
    with it the shop, and a symbol without a subgraph is the failure. The large size is owned by the
    subgraph that it names, the small one by that of the sizes. -/
theorem countedShop_owners : (countedShop "STOCK").WellNamed ∧
    (∃ o, (countedShop "STOCK").ownership = .ok o ∧
      o.get? "Shop.count" = some (.ofList ["stocks"]) ∧
      (∃ c, c.argumentName? = none ∧ c.render = "Shop.count" ∧
        (countedShop "STOCK").HasOwners c (.ofList ["stocks"])) ∧
      (∃ c, c.argumentName? = none ∧ c.render = "Size.LARGE" ∧
        (countedShop "STOCK").HasOwners c (.ofList ["stocks"])) ∧
      (∃ c, c.argumentName? = none ∧ c.render = "Size.SMALL" ∧
        (countedShop "STOCK").HasOwners c (.ofList ["shops"])) ∧
      ∃ all, o.get? "Shop" = some all ∧ "stocks" ∈ all) ∧
    (countedShop "LOST").ownership
      = .error (.undeclaredGraph "LOST" (.member "Shop" "count")) ∧
    ∀ subgraph, ¬ (countedShop "LOST").StandsFor "LOST" subgraph := by
  have hnames : (countedShop "STOCK").WellNamed := by decide +kernel
  obtain ⟨o, ho, hget, hlarge, hsmall⟩ : ∃ o, (countedShop "STOCK").ownership = .ok o ∧
      o.get? "Shop.count" = some (.ofList ["stocks"]) ∧
      o.get? "Size.LARGE" = some (.ofList ["stocks"]) ∧
      o.get? "Size.SMALL" = some (.ofList ["shops"]) := ⟨_, rfl, rfl, rfl, rfl⟩
  obtain ⟨hlisted, hcontains⟩ := (Document.ownership_exact (countedShop "STOCK")).2 hnames o ho
  obtain ⟨u, m, hu, hm, hname, hcount⟩ : ∃ u m, u ∈ (countedShop "STOCK").definedTypes.values ∧
      m ∈ membersOf u.body ∧ u.name = "Shop" ∧ m.name = "count" :=
    ⟨_, _, List.mem_cons_of_mem _ List.mem_cons_self,
      List.mem_cons_of_mem _ List.mem_cons_self, rfl, rfl⟩
  have hgetm : o.get? (Coordinate.member u.name m.name).render = some (.ofList ["stocks"]) := by
    rw [hname, hcount]
    exact hget
  obtain ⟨all, hall, hsub⟩ := hcontains u hu m hm _ hgetm
  have herror : (countedShop "LOST").ownership
      = .error (.undeclaredGraph "LOST" (.member "Shop" "count")) := rfl
  refine ⟨hnames, ⟨o, ho, hget, (hlisted _ _).1 hget, (hlisted _ _).1 hlarge,
    (hlisted _ _).1 hsmall, all, ?_, hsub _ (by decide)⟩, herror, ?_⟩
  · rw [hname] at hall
    exact hall
  · rcases ((Document.ownership_exact (countedShop "LOST")).1 _).1 herror with
      ⟨-, he⟩ | ⟨-, _, symbol, element, _, -, -, hlost, he⟩
    · cases he
    · cases he
      exact hlost

end SchemaView
