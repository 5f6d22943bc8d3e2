import Mathlib.Data.List.Basic
import SchemaView.Proofs.DefinitionOrder
import SchemaView.Proofs.TagFilter
import SchemaView.Proofs.UndefinedReferences

/-!
# Compiling does not depend on the order of definitions

A contract of a reordered document is the reordered contract. Nothing that decides what is hidden
depends on the order of definitions, as long as no type, directive or member is declared twice and
the declarations of the schema keep their order; so both documents are marked by the same test, and
marking goes from definition to definition.

## Key results

- `SameDeclarations.get?_exclusions`: a rule hides the same for the same reasons
- `SameDeclarations.cascadeFor`: a cascade marks both documents by one test
- `SameDeclarations.exists_compiled`: so does a compilation, and the reports are the same
- `reordered_mark`, `ensureMarkerFor_reordered`: marking and reordering commute
- `compile_reordered`: what does not depend on the order, and what is reordered with it
-/

namespace SchemaView

open Sdl

/-! ## What a rule hides -/

/-- Where no member is declared twice, every declaration counts. -/
theorem firstDeclarations_of_nodup {ms : List Member} (h : (ms.map Member.name).Nodup) :
    firstDeclarations ms = ms := by
  induction ms with
  | nil => rfl
  | cons m ms ih =>
    rw [List.map_cons, List.nodup_cons] at h
    rw [firstDeclarations, ih h.2, List.filter_eq_self.2]
    intro other hother
    rw [bne_iff_ne]
    intro hname
    exact h.1 (hname ▸ List.mem_map_of_mem hother)

namespace Filter

variable {rule : Rule} {tags tags' : TagMap} {ownership : Option Ownership} {type : Name}
  {t t' : NamedType} {c : Coordinate} {reason : Reason}

/-- Filters that differ in the order in which tags are listed and named types that differ in the
    order in which members are declared. -/
structure SameUpToOrder (tags tags' : TagMap) (t t' : NamedType) : Prop where
  tags : ∀ c, tags'.of c = tags.of c
  definition : t'.definition = t.definition
  members : t'.members.Perm t.members
  distinct : (t.members.map Member.name).Nodup

namespace SameUpToOrder

variable (h : SameUpToOrder tags tags' t t')

include h

theorem symm : SameUpToOrder tags' tags t' t where
  tags c := (h.tags c).symm
  definition := h.definition.symm
  members := h.members.symm
  distinct := ((h.members.map Member.name).nodup_iff).2 h.distinct

theorem reason?_eq : (Filter.mk rule tags' ownership).reason? c
    = (Filter.mk rule tags ownership).reason? c := by
  simp only [Filter.reason?, h.tags]

/-- The same members are judged. -/
theorem mem_judgedMembers_iff (m : Member) :
    m ∈ (Filter.mk rule tags' ownership).judgedMembers type t' ↔
      m ∈ (Filter.mk rule tags ownership).judgedMembers type t := by
  simp only [judgedMembers, firstDeclarations_of_nodup h.distinct,
    firstDeclarations_of_nodup h.symm.distinct, List.mem_filter, h.members.mem_iff]

/-- The type is hidden for the same reason. -/
theorem typeReason?_eq : (Filter.mk rule tags' ownership).typeReason? type t'
    = (Filter.mk rule tags ownership).typeReason? type t := by
  apply Option.ext
  intro reason
  simp only [typeReason?_eq_some_iff, h.tags, h.definition, h.reason?_eq, ne_eq,
    List.eq_nil_iff_forall_not_mem, h.mem_judgedMembers_iff]

/-- The same is hidden of the type, for the same reasons. -/
theorem hidesFor (hhides : (Filter.mk rule tags ownership).HidesFor type t c reason) :
    (Filter.mk rule tags' ownership).HidesFor type t' c reason := by
  cases hhides with
  | argument hm ha hreason =>
    rw [← h.reason?_eq] at hreason
    exact .argument ((h.mem_judgedMembers_iff _).2 hm) ha hreason
  | member hm hreason =>
    rw [← h.reason?_eq] at hreason
    exact .member ((h.mem_judgedMembers_iff _).2 hm) hreason
  | type howned hreason =>
    rw [← h.typeReason?_eq] at hreason
    exact .type howned hreason

end SameUpToOrder

end Filter

namespace Document

namespace SameDeclarations

variable {d e : Document} (h : d.SameDeclarations e) (hd : d.DistinctMembers)

include h hd

/-- A rule hides the same of both documents, for the same reasons. -/
theorem get?_exclusions {tags tags' : TagMap} (htags : ∀ c, tags'.of c = tags.of c) (rule : Rule)
    (ownership : Option Ownership) (skip : NameSet) (c : Coordinate) :
    ((Filter.mk rule tags' ownership).exclusions e skip).get? c
      = ((Filter.mk rule tags ownership).exclusions d skip).get? c := by
  have key : ∀ {d e : Document} {tags tags' : TagMap}, d.SameDeclarations e → d.DistinctMembers →
      (∀ c, tags'.of c = tags.of c) → ∀ reason,
      ((Filter.mk rule tags ownership).exclusions d skip).get? c = some reason →
        ((Filter.mk rule tags' ownership).exclusions e skip).get? c = some reason := by
    intro d e tags tags' h hd htags reason hreason
    rw [Filter.get?_exclusions_iff] at hreason ⊢
    obtain ⟨name, t, ht, hskip, hhides⟩ := hreason
    obtain ⟨t', ht', hdefinition, hperm⟩ := h.get?_types ht
    have hsame : Filter.SameUpToOrder tags tags' t t' :=
      ⟨htags, hdefinition, hperm.flatMap_right _, hd t ((OrderedMap.mem_values_iff _ _).2 ⟨_, ht⟩)⟩
    exact ⟨name, t', ht', hskip, hsame.hidesFor hhides⟩
  apply Option.ext
  intro reason
  exact ⟨key h.symm (h.distinctMembers hd) (fun c => (htags c).symm) reason, key h hd htags reason⟩

theorem get?_selection (options : CompileOptions) (keep : NameSet) (c : Coordinate) :
    (e.selection options keep).get? c = (d.selection options keep).get? c := by
  apply h.get?_exclusions hd
  intro c
  cases options.tags with
  | none =>
    simp only [Option.getD_none, filterTags, TagMap.of, h.tagDirective_eq, h.get?_tags]
  | some tags => rfl

theorem mem_selection_iff (options : CompileOptions) (keep : NameSet) (c : Coordinate) :
    c ∈ (e.selection options keep).keys ↔ c ∈ (d.selection options keep).keys := by
  rw [OrderedMap.mem_keys_iff, OrderedMap.mem_keys_iff, h.get?_selection hd]

/-- With what the rule hides marked, both documents say the same. -/
theorem tagMarked (options : CompileOptions) (keep : NameSet) :
    (d.tagMarked options keep).SameDeclarations (e.tagMarked options keep) := by
  have hmarked : e.tagMarked options keep
      = e.markAt options.config.marker (d.selection options keep).keys :=
    markAt_congr (h.mem_selection_iff hd options keep)
  rw [hmarked]
  exact h.mark _ _

omit hd

/-! ## Cascades -/

theorem mem_pendingTypes_iff (marker : Name) (visible : NameSet) (n : Name) :
    n ∈ e.pendingTypes marker visible ↔ n ∈ d.pendingTypes marker visible := by
  simp only [mem_pendingTypes, h.types]

/-- A pass marks both documents by the same test. -/
theorem passTest_eq (marker : Name) (visible : NameSet) :
    e.passTest marker visible = d.passTest marker visible := by
  have hempty : (e.pendingTypes marker visible).isEmpty
      = (d.pendingTypes marker visible).isEmpty := by
    rw [Bool.eq_iff_iff, List.isEmpty_iff, List.isEmpty_iff, List.eq_nil_iff_forall_not_mem,
      List.eq_nil_iff_forall_not_mem]
    simp only [h.mem_pendingTypes_iff]
  funext c
  rw [passTest, passTest, hempty]

/-- The cascade of a compilation marks both documents by one test, and reports the same types. -/
theorem cascadeFor {options : CompileOptions} {keep : NameSet} {result : CascadeResult}
    (hrun : d.cascadeFor options keep = .ok result) :
    ∃ result' hit, e.cascadeFor options keep = .ok result' ∧
      result.document = d.mark options.config.marker hit ∧
      result'.document = e.mark options.config.marker hit ∧
      ∀ n, n ∈ result'.marked ↔ n ∈ result.marked := by
  rcases cascadeFor_eq_ok_iff.1 hrun with ⟨hremove, reached, hreached, rfl⟩ | ⟨hkeeps, rfl⟩
  · have hreached' := (h.reachable_iff _).2 hreached
    refine ⟨_, _, cascadeFor_eq_ok_iff.2 (Or.inl ⟨hremove, reached, hreached', rfl⟩),
      afterPass_document, ?_, fun n => ?_⟩
    · rw [afterPass_document, h.passTest_eq]
    · rw [afterPass_marked, afterPass_marked]
      exact h.mem_pendingTypes_iff _ _ n
  · exact ⟨_, fun _ => false, cascadeFor_eq_ok_iff.2 (Or.inr ⟨hkeeps, rfl⟩), (mark_none _ d).symm,
      (mark_none _ e).symm, fun n => Iff.rfl⟩

/-! ## Compilations -/

include hd

/-- A compilation marks both documents by one test and has the same report for both. -/
theorem exists_compiled {options : CompileOptions} {c : Compilation}
    (hc : d.compile options = .ok (.compiled c)) :
    ∃ c' hit, e.compile options = .ok (.compiled c') ∧
      (∀ k, c'.exclusions.get? k = c.exclusions.get? k) ∧
      c.document = (d.mark options.config.marker hit).ensureMarkerFor options.config ∧
      c'.document = (e.mark options.config.marker hit).ensureMarkerFor options.config := by
  obtain ⟨hcheck, keep, result, hkeep, hrun, rfl⟩ := compile_eq_compiled_iff.1 hc
  obtain ⟨result', hit, hrun', hdocument, hdocument', hmarked⟩ :=
    (h.tagMarked hd options keep).cascadeFor hrun
  have htest : hiddenTest (e.selection options keep).keys hit
      = hiddenTest (d.selection options keep).keys hit := by
    funext k
    rw [Bool.eq_iff_iff, hiddenTest_iff, hiddenTest_iff, h.mem_selection_iff hd]
  refine ⟨_, _, compile_eq_compiled_iff.2
    ⟨hcheck, keep, result', h.protectedTypes_iff.2 hkeep, hrun', rfl⟩, fun k => ?_,
    compiled_document hdocument, by rw [compiled_document hdocument', htest]⟩
  apply Option.ext
  intro reason
  show (withCascaded _ _).get? k = some reason ↔ (withCascaded _ _).get? k = some reason
  simp only [get?_withCascaded_iff, h.get?_selection hd, hmarked]

theorem exists_compiled_iff (options : CompileOptions) :
    (∃ c, e.compile options = .ok (.compiled c)) ↔ ∃ c, d.compile options = .ok (.compiled c) := by
  have key : ∀ {d e : Document}, d.SameDeclarations e → d.DistinctMembers →
      (∃ c, d.compile options = .ok (.compiled c)) →
        ∃ c, e.compile options = .ok (.compiled c) := by
    intro d e h hd hcompiled
    obtain ⟨c, hc⟩ := hcompiled
    obtain ⟨c', -, hc', -⟩ := h.exists_compiled hd hc
    exact ⟨c', hc'⟩
  exact ⟨key h.symm (h.distinctMembers hd), key h hd⟩

end SameDeclarations

/-- A compilation names an unknown type exactly if the rule is valid and nothing is compiled. -/
theorem compile_unknownType_iff {d : Document} {options : CompileOptions} :
    (∃ name referrer, d.compile options = .error (.unknownType name referrer)) ↔
      options.rule.check = [] ∧ ¬ ∃ c, d.compile options = .ok (.compiled c) := by
  constructor
  · intro h
    obtain ⟨name, referrer, herror⟩ := h
    constructor
    · -- A rule that is not valid is rejected.
      by_cases hcheck : options.rule.check = []
      · exact hcheck
      · rw [compile_eq_rejected_iff.2 ⟨hcheck, rfl⟩] at herror
        cases herror
    · intro hcompiled
      obtain ⟨c, hc⟩ := hcompiled
      rw [hc] at herror
      cases herror
  · intro h
    obtain ⟨name, referrer, herror, -⟩ := (exists_unknownType_iff h.1).2 h.2
    exact ⟨name, referrer, herror⟩

/-! ## Reordering -/

/-- The definitions of a document in another order, given by their numbers. -/
def reordered (d : Document) (indexes : List Nat) : Document :=
  ⟨indexes.filterMap fun i => d.definitions[i]?⟩

/-- The elements of a list by their numbers are the list. -/
private theorem filterMap_getElem?_range {α : Type} (xs : List α) :
    (List.range xs.length).filterMap (fun i => xs[i]?) = xs := by
  induction xs with
  | nil => rfl
  | cons x xs ih =>
    rw [List.length_cons, List.range_succ_eq_map, List.filterMap_cons, List.filterMap_map]
    exact congrArg (x :: ·) ih

variable {d : Document} {indexes : List Nat}

theorem reordered_perm (h : indexes.Perm (List.range d.definitions.length)) :
    (d.reordered indexes).definitions.Perm d.definitions := by
  have hperm := h.filterMap fun i => d.definitions[i]?
  rwa [filterMap_getElem?_range] at hperm

/-- Marking goes from definition to definition, in whatever order they are. -/
theorem reordered_mark (marker : Name) (hit : Coordinate → Bool) :
    (d.reordered indexes).mark marker hit = (d.mark marker hit).reordered indexes := by
  simp only [reordered, mark, List.map_filterMap, List.getElem?_map]

/-- If a definition of the marker is added, it is the last one in any order. -/
theorem ensureMarkerFor_reordered (h : indexes.Perm (List.range d.definitions.length))
    (hsame : d.SameDeclarations (d.reordered indexes)) (config : Config) :
    (d.reordered indexes).ensureMarkerFor config
      = (d.ensureMarkerFor config).reordered (indexes ++ [d.definitions.length]) := by
  have huses : (d.reordered indexes).uses config.marker = d.uses config.marker := by
    rw [Bool.eq_iff_iff, uses, uses, List.any_eq_true, List.any_eq_true]
    simp only [hsame.mem_typeDeclarations_iff]
  have hdefined : (d.reordered indexes).definedDirectives.contains config.marker
      = d.definedDirectives.contains config.marker := by
    rw [Bool.eq_iff_iff, OrderedMap.contains_iff, OrderedMap.contains_iff, OrderedMap.mem_keys_iff,
      OrderedMap.mem_keys_iff, hsame.directives]
  -- The numbers are those of definitions that were there before.
  have hlt : ∀ i ∈ indexes, i < d.definitions.length := by
    intro i hi
    rw [← List.mem_range, ← h.mem_iff]
    exact hi
  have hbefore : ∀ added : List Definition,
      indexes.filterMap (fun i => (d.definitions ++ added)[i]?)
        = indexes.filterMap fun i => d.definitions[i]? := by
    intro added
    apply List.filterMap_congr
    intro i hi
    exact List.getElem?_append_left (hlt i hi)
  unfold ensureMarkerFor ensureMarker
  rw [huses, hdefined]
  split
  · split
    · simp [reordered]
    · simp [reordered, hbefore]
  · simp [reordered]

/-- Reordering the definitions of a document whose types, directives and members are distinct, with
    the declarations of the schema in their order, changes nothing that is read off it, nothing that
    a rule hides and nothing that is rejected; the definitions of a compiled contract are reordered
    in the same way, and an added definition of the marker stays the last one. -/
theorem compile_reordered (d : Document) (indexes : List Nat)
    (hperm : indexes.Perm (List.range d.definitions.length))
    (hschema : (d.reordered indexes).schemaDeclarations = d.schemaDeclarations)
    (htypes : d.DistinctTypes) (hdirectives : d.DistinctDirectives)
    (hmembers : d.DistinctMembers) :
    (∀ ignore reached,
      (d.reordered indexes).reachable ignore = .ok reached ↔ d.reachable ignore = .ok reached) ∧
    (∀ tagDirective k,
      ((d.reordered indexes).tags tagDirective).get? k = (d.tags tagDirective).get? k) ∧
    (∀ config kept, (d.reordered indexes).protectedTypes config = .ok kept ↔
      d.protectedTypes config = .ok kept) ∧
    ∀ options,
      (∀ verdict, (d.reordered indexes).compile options = .ok (.rejected verdict) ↔
        d.compile options = .ok (.rejected verdict)) ∧
      ((∃ name referrer,
          (d.reordered indexes).compile options = .error (.unknownType name referrer)) ↔
        ∃ name referrer, d.compile options = .error (.unknownType name referrer)) ∧
      ∀ c, d.compile options = .ok (.compiled c) →
        ∃ c', (d.reordered indexes).compile options = .ok (.compiled c') ∧
          (∀ k, c'.exclusions.get? k = c.exclusions.get? k) ∧
          c'.document = c.document.reordered (indexes ++ [d.definitions.length]) := by
  have h : d.SameDeclarations (d.reordered indexes) :=
    sameDeclarations_of_perm (reordered_perm hperm) hschema htypes hdirectives
  refine ⟨fun ignore _ => h.reachable_iff ignore, h.get?_tags, fun _ _ => h.protectedTypes_iff,
    fun options => ⟨?_, ?_, ?_⟩⟩
  · intro verdict
    rw [compile_eq_rejected_iff, compile_eq_rejected_iff]
  · rw [compile_unknownType_iff, compile_unknownType_iff, h.exists_compiled_iff hmembers]
  · intro c hc
    obtain ⟨c', hit, hc', hexclusions, hdocument, hdocument'⟩ := h.exists_compiled hmembers hc
    refine ⟨c', hc', hexclusions, ?_⟩
    -- Marking keeps the number of definitions, and so the number behind the last one.
    have hlength : (d.mark options.config.marker hit).definitions.length
        = d.definitions.length := by
      rw [mark, List.length_map]
    have hmarked := h.mark options.config.marker hit
    rw [reordered_mark] at hdocument' hmarked
    rw [hdocument', hdocument, ← hlength]
    rw [← hlength] at hperm
    exact ensureMarkerFor_reordered hperm hmarked options.config

end Document

/-! ## A shop told backwards -/

/-- A shop with an internal price, declared by an extension. Nothing else refers to its type. -/
def pricedShop : Document := ⟨[
  .type ⟨none, "Query", [], .object [] [⟨none, "shop", [], .named "Shop", []⟩]⟩,
  .type ⟨none, "Shop", [], .object [] [⟨none, "name", [], .named "String", []⟩]⟩,
  .typeExtension ⟨none, "Shop", [],
    .object [] [⟨none, "price", [], .named "Price", [tagUse "internal"]⟩]⟩,
  .type ⟨none, "Price", [], .scalar⟩]⟩

/-- Told backwards, with extensions before their definitions, the shop loses the same: the price for
    its tag, and its type because nothing reaches it any more. -/
theorem pricedShop_reordered :
    [3, 2, 1, 0].Perm (List.range pricedShop.definitions.length) ∧
    ∃ c c', pricedShop.compile withoutInternal = .ok (.compiled c) ∧
      (pricedShop.reordered [3, 2, 1, 0]).compile withoutInternal = .ok (.compiled c') ∧
      c'.exclusions.get? (.member "Shop" "price") = some .excludedTag ∧
      c'.exclusions.get? (.type "Price") = some .unreachable ∧
      c'.document = c.document.reordered [3, 2, 1, 0, 4] ∧
      c'.document.definitions.length = 5 := by
  have hperm : [3, 2, 1, 0].Perm (List.range pricedShop.definitions.length) := by decide
  obtain ⟨c, hc, hprice, htype, hlength⟩ :
      ∃ c, pricedShop.compile withoutInternal = .ok (.compiled c) ∧
        c.exclusions.get? (.member "Shop" "price") = some .excludedTag ∧
        c.exclusions.get? (.type "Price") = some .unreachable ∧
        (c.document.reordered [3, 2, 1, 0, 4]).definitions.length = 5 := ⟨_, rfl, rfl, rfl, rfl⟩
  obtain ⟨-, -, -, hcompile⟩ := Document.compile_reordered pricedShop [3, 2, 1, 0] hperm rfl
    (by decide) (by decide) (by decide)
  obtain ⟨c', hc', hexclusions, hdocument⟩ := (hcompile withoutInternal).2.2 c hc
  refine ⟨hperm, c, c', hc, hc', ?_, ?_, hdocument, ?_⟩
  · rw [hexclusions, hprice]
  · rw [hexclusions, htype]
  · rw [hdocument]
    exact hlength

end SchemaView
