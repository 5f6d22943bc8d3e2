import SchemaView.Audit
import SchemaView.Proofs.CompileCorrect
import SchemaView.Proofs.CoordinateText
import SchemaView.Proofs.NodeLookup

/-!
# Compiling by texts

Owners are kept by the texts of coordinates, and marks are written and written again from texts.
`Document.compile` asks for the owners of coordinates and marks at coordinates. Here the same
contract is compiled with nothing but texts in between, where every text has to be read back and
every definition to be found, and it is shown that this never fails where the names of a document
are what a reader produces.

## Key results

- `WellNamed.judged`, `WellNamed.report`: what is judged and reported has well-named coordinates
- `exclusionsByText_eq_ok`: what a rule hides is the same by texts
- `compileByText_eq`, `remarkedByText_eq_ok`: compiling and marking again are the same by texts
-/

namespace SchemaView

open Sdl

/-! ## Compiling by texts -/

/-- Whether a rule is applied to the element that a text names. -/
def isOwnedByText (ownership : Option Ownership) (text : String) : Except Error Bool :=
  match ownership with
  | some o => do pure (!(← o.ownersOfText text).isEmpty)
  | none => .ok true

namespace Filter

/-- Why a type is hidden, if it is, given its definition and the members that are judged. -/
def reasonAmong (f : Filter) (type : Name) (definition : TypeDecl) (members : List Member) :
    Option Reason :=
  match f.rule.reason? (f.tags.of (.type type)) (isMemberless definition.body) with
  | some reason => some reason
  | none =>
    if !members.isEmpty && members.all fun m => (f.reason? (.member type m.name)).isSome then
      some .allMembersExcluded
    else none

/-- What is hidden of a type, given the definitions of all types. -/
def typeExclusionsByText (f : Filter) (defined : OrderedMap Name TypeDecl) (type : Name)
    (t : NamedType) : Except Error (List (Coordinate × Reason)) := do
  let members ← (firstDeclarations t.members).filterM fun m =>
    isOwnedByText f.ownership (Coordinate.member type m.name).render
  let owned ← isOwnedByText f.ownership (Coordinate.type type).render
  let definition ← defined.fetch type
  let reason := if owned then f.reasonAmong type definition members else none
  pure (f.hidden (members.flatMap fun m => m.arguments.map fun a => .argument type m.name a.name)
    ++ f.hidden (members.map fun m => .member type m.name)
    ++ (reason.map fun reason => (Coordinate.type type, reason)).toList)

/-- What is hidden of a document, some types left out of account. -/
def exclusionsByText (f : Filter) (d : Document) (skip : NameSet) : Except Error Exclusions := do
  let judged := d.types.entries.filter fun e => !decide (e.1 ∈ skip)
  pure (.ofList (← judged.mapM fun e => f.typeExclusionsByText d.definedTypes e.1 e.2).flatten)

end Filter

/-- How many elements each subgraph owns, for the subgraphs that own any. -/
def countByText (o : Ownership) (texts : List String) : Except Error (List (String × Nat)) := do
  let owners ← texts.mapM o.ownersOfText
  pure ((owners.foldl NameSet.union .empty).names.map fun subgraph =>
    (subgraph, owners.countP fun set => decide (subgraph ∈ set)))

namespace Document

/-- Compiles a contract with a valid rule. -/
def compileValidByText (d : Document) (options : CompileOptions) : Except Error Compilation := do
  let config := options.config
  let tags := options.tags.getD (d.filterTags config)
  let keep := config.protectedTypes.union (← d.directiveTypesByName)
  let selected ← (Filter.mk options.rule tags options.ownership).exclusionsByText d keep
  let marked ← d.markTexts config.marker (selected.keys.map Coordinate.render)
  let cascade ← marked.cascadeFor options keep
  let exclusions := withCascaded selected cascade.marked
  let document := cascade.document.ensureMarkerFor config
  let counts ← match options.ownership with
    | some o => countByText o (exclusions.keys.map Coordinate.render)
    | none => pure []
  pure {
    contractName := options.contractName
    document := document
    sdl := document.render
    rule := options.rule
    exclusions := exclusions
    cascaded := cascade.marked
    passes := cascade.passes
    hiddenBySubgraph := counts
    tags := tagsAmong tags exclusions.keys }

/-- Compiles a contract, unless its rule is not valid. -/
def compileByText (d : Document) (options : CompileOptions) : Except Error CompileResult :=
  match options.rule.check with
  | [] => do pure (.compiled (← d.compileValidByText options))
  | violations => .ok (.rejected violations)

end Document

/-- The contract schema after it was marked once more from the texts of the report. -/
def Compilation.remarkedByText (c : Compilation) (config : Config) : Except Error Document := do
  let marked ← c.document.markTexts config.marker c.excludedTexts
  pure (marked.markTypes config.marker (.ofList (c.document.unmarkedTypes config.marker)))

/-! ## What a rule hides -/

theorem isOwnedByText_render (ownership : Option Ownership) {c : Coordinate} (h : c.WellNamed) :
    isOwnedByText ownership c.render = .ok (isOwned ownership c) := by
  cases ownership with
  | none => rfl
  | some o => simp only [isOwnedByText, o.ownersOfText_render h, isOwned]; rfl

variable {d : Document}

/-- The types and members that a rule judges have well-named coordinates. -/
theorem Document.WellNamed.judged (h : d.WellNamed) {name : Name} {t : NamedType}
    (he : (name, t) ∈ d.types.entries) : (Coordinate.type name).WellNamed ∧
      ∀ m ∈ t.members, (Coordinate.member name m.name).WellNamed := by
  have hname := Document.name_of_mem_declarations he
  constructor
  · have hdefinition : t.definition ∈ t.declarations := List.mem_cons_self
    have hsite := h _ (Filter.mem_typeDeclarations he hdefinition) _ List.mem_cons_self
    rwa [hname _ hdefinition] at hsite
  · intro m hm
    -- The member is one of a declaration, which has the name of the type.
    obtain ⟨u, hu, hm⟩ := List.mem_flatMap.1 hm
    have hsite := h u (Filter.mem_typeDeclarations he hu) _
      (Filter.mem_sitesOf_of_mem_membersOf hm List.mem_cons_self)
    rwa [hname u hu] at hsite

namespace Filter

variable (f : Filter)

theorem typeExclusionsByText_eq_ok (h : d.WellNamed) {name : Name} {t : NamedType}
    (he : (name, t) ∈ d.types.entries) :
    f.typeExclusionsByText d.definedTypes name t = .ok (f.typeExclusions name t) := by
  obtain ⟨htype, hmembers⟩ := h.judged he
  have hjudged : ((firstDeclarations t.members).filterM fun m =>
      isOwnedByText f.ownership (Coordinate.member name m.name).render)
      = .ok (f.judgedMembers name t) :=
    filterM_eq_ok fun m hm =>
      isOwnedByText_render f.ownership (hmembers m (mem_of_mem_firstDeclarations hm))
  have hdefinition : d.definedTypes.fetch name = .ok t.definition := by
    obtain ⟨⟨_, definition⟩, hentry, heq⟩ := List.mem_map.1 he
    cases heq
    exact OrderedMap.fetch_eq_ok ((OrderedMap.get?_eq_some_iff _ _ _).2 hentry)
  simp only [typeExclusionsByText, hjudged, isOwnedByText_render f.ownership htype, hdefinition,
    bind, Except.bind, pure, Except.pure, typeExclusions]
  cases isOwned f.ownership (.type name) <;> rfl

/-- What a rule hides is the same by texts. -/
theorem exclusionsByText_eq_ok (h : d.WellNamed) (skip : NameSet) :
    f.exclusionsByText d skip = .ok (f.exclusions d skip) := by
  have hall : ∀ e ∈ d.types.entries.filter fun e => !decide (e.1 ∈ skip),
      f.typeExclusionsByText d.definedTypes e.1 e.2 = .ok (f.typeExclusions e.1 e.2) :=
    fun e he => f.typeExclusionsByText_eq_ok h (List.mem_filter.1 he).1
  simp only [exclusionsByText, mapM_eq_ok hall, exclusions, List.flatMap_def]
  rfl

end Filter

/-! ## Compilations -/

theorem countByText_eq_ok (o : Ownership) {elements : List Coordinate}
    (h : ∀ c ∈ elements, c.WellNamed) :
    countByText o (elements.map Coordinate.render) = .ok (countBySubgraph o elements) := by
  have howners : (elements.map Coordinate.render).mapM o.ownersOfText
      = .ok (elements.map o.owners) := by
    rw [List.mapM_map]
    exact mapM_eq_ok fun c hc => o.ownersOfText_render (h c hc)
  simp only [countByText, howners]
  rfl

namespace Document

variable {options : CompileOptions} {keep : NameSet}

/-- What a rule hides has well-named coordinates. -/
theorem WellNamed.selection (h : d.WellNamed) {c : Coordinate}
    (hc : c ∈ (d.selection options keep).keys) : c.WellNamed := by
  obtain ⟨u, hu, s, hs, rfl⟩ := Filter.exists_site_of_mem_exclusions hc
  exact h u hu s hs

/-- What a compilation reports has well-named coordinates. -/
theorem WellNamed.report (h : d.WellNamed) {cascade : CascadeResult}
    (hrun : (d.tagMarked options keep).cascadeFor options keep = .ok cascade) {c : Coordinate}
    (hc : c ∈ (d.assembled options keep cascade).exclusions.keys) : c.WellNamed := by
  rcases (mem_keys_withCascaded _ _ c).1 hc with hc | ⟨n, hn, rfl⟩
  · exact h.selection hc
  · -- What the cascade marks are defined types, and marking defines none.
    obtain ⟨-, -, -, hmarked, -⟩ := cascadeFor_mark hrun
    have hdefined := hmarked n hn
    rw [tagMarked, markAt, keys_definedTypes_mark, ← mem_keys_types] at hdefined
    obtain ⟨t, ht⟩ := (OrderedMap.mem_keys_iff _ _).1 hdefined
    exact (h.judged ((OrderedMap.get?_eq_some_iff _ _ _).1 ht)).1

theorem compileValidByText_eq (h : d.WellNamed) (options : CompileOptions) :
    d.compileValidByText options = d.compileValid options := by
  simp only [compileValid_eq, compileValidByText, protectedTypes, directiveTypesByName_eq]
  cases d.directiveTypes with
  | error e => rfl
  | ok types =>
    -- The stages one after the other, with the protected types that both have found.
    simp only [bind, Except.bind, pure, Except.pure]
    generalize options.config.protectedTypes.union types = keep
    have hselected : (Filter.mk options.rule (options.tags.getD (d.filterTags options.config))
        options.ownership).exclusionsByText d keep = .ok (d.selection options keep) :=
      Filter.exclusionsByText_eq_ok _ h keep
    have hmarked : d.markTexts options.config.marker
        ((d.selection options keep).keys.map Coordinate.render) = .ok (d.tagMarked options keep) :=
      markTexts_eq (fun c hc => h.selection hc) fun _ => Iff.rfl
    simp only [hselected, hmarked]
    cases hrun : (d.tagMarked options keep).cascadeFor options keep with
    | error e => rfl
    | ok cascade =>
      have hnamed := fun c hc => h.report hrun (c := c) hc
      cases howners : options.ownership with
      | none => simp only [assembled, howners]
      | some o =>
        have hcounts := countByText_eq_ok o hnamed
        simp only [assembled] at hcounts
        simp only [hcounts, assembled, howners]

/-- Compiling is the same by texts. -/
theorem compileByText_eq (h : d.WellNamed) (options : CompileOptions) :
    d.compileByText options = d.compile options := by
  have hvalid := compileValidByText_eq h options
  cases hcheck : options.rule.check with
  | nil => simp only [compileByText, compile, hcheck, hvalid]
  | cons violation violations => simp only [compileByText, compile, hcheck]

/-- Marking once more is the same by the texts of the report. -/
theorem remarkedByText_eq_ok (h : d.WellNamed) {options : CompileOptions} {c : Compilation}
    (hc : d.compile options = .ok (.compiled c)) :
    c.remarkedByText options.config = .ok (c.remarked options.config) := by
  obtain ⟨-, keep, cascade, -, hrun, rfl⟩ := compile_eq_compiled_iff.1 hc
  have hnamed := fun k hk => h.report hrun (c := k) hk
  generalize d.assembled options keep cascade = c at hnamed ⊢
  have htexts : ∀ text, text ∈ c.excludedTexts ↔
      text ∈ c.exclusions.keys.map Coordinate.render := by
    intro text
    rw [Compilation.excludedTexts, ← NameSet.mem_def, NameSet.mem_ofList]
  simp only [Compilation.remarkedByText, markTexts_eq hnamed htexts]
  rfl

end Document

end SchemaView
