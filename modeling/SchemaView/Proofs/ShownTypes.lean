import SchemaView.Proofs.DeclaredReach
import SchemaView.Proofs.ReportCorrect

/-!
# What a contract shows

A contract shows a type if a type that it reaches refers to it past marked elements. Marking an
element does not mark what refers to it, so a shown type may be hidden: because the source hides it,
or because the rule hides it for its own tags or members. The cascade hides no type that is shown,
since such a type is reached as long as nothing else hides it. Only a built-in scalar that a
document defines may be shown without being reached: references to such scalars are not followed.

## Key results

- `Shows.mem_reached`: a shown type is reached unless it is hidden
- `Shows.not_mem_pendingTypes`: a cascade does not mark it
- `Shows.reason_ne_unreachable`: nor does a report have it as unreachable
- `compile_shown_types`: which shown types of a contract are hidden
-/

namespace SchemaView

open Sdl

namespace Document

/-- A type that one of the reached types refers to past marked elements. -/
def Shows (d : Document) (marker : Name) (reached : NameSet) (target : Name) : Prop :=
  ∃ type ∈ reached, ∃ t, d.types.get? type = some t ∧
    ∃ u ∈ t.declarations, RefersTo (some marker) u.body target

variable {d : Document} {marker target : Name} {reached : NameSet}

/-! ## Shown types and cascades -/

/-- A shown type is reached unless its definition is marked. -/
theorem Shows.mem_reached (h : d.Shows marker reached target)
    (hreached : d.reachable (some marker) = .ok reached) (hscalar : isBuiltIn target = false)
    {definition : TypeDecl} (htarget : d.definedTypes.get? target = some definition)
    (hunmarked : carries marker definition.directives = false) : target ∈ reached := by
  obtain ⟨hresolves, -⟩ := (d.reachable_eq_ok_iff (some marker) reached).1 hreached
  obtain ⟨type, htype, t, ht, u, hu, hrefers⟩ := h
  -- The reference is a step in the graph, and the node behind it is open.
  have hlead : d.LeadsTo (some marker) type target := .refers ht hu hrefers hscalar
  have hopen : (d.graphOf (some marker)).isOpen target = true :=
    (isOpen_graphOf_of_defined (hlead.target_defined hresolves.mentioned)).2
      ⟨definition, htarget, hunmarked⟩
  rw [mem_of_reachable_eq_ok d (some marker) hreached] at htype ⊢
  exact .step htype ((mem_successors_iff_leadsTo hresolves.mentioned type target).2 hlead) hopen

/-- No pass of a cascade has to mark a shown type. -/
theorem Shows.not_mem_pendingTypes (h : d.Shows marker reached target)
    (hreached : d.reachable (some marker) = .ok reached) (hscalar : isBuiltIn target = false)
    (keep : NameSet) : target ∉ d.pendingTypes marker (reached.union keep) := by
  intro hpending
  obtain ⟨definition, htarget, hinvisible, hunmarked⟩ := mem_pendingTypes.1 hpending
  apply hinvisible
  rw [NameSet.mem_union]
  exact Or.inl (h.mem_reached hreached hscalar htarget hunmarked)

/-- Marking types changes nothing about what is referred to. -/
theorem Shows.of_mark {hit : Coordinate → Bool} (htypes : TypesOnly hit)
    (h : (d.mark marker hit).Shows marker reached target) : d.Shows marker reached target := by
  obtain ⟨type, htype, t', ht', u', hu', hrefers⟩ := h
  rw [types_mark, OrderedMap.get?_map] at ht'
  obtain ⟨t, ht, rfl⟩ := Option.map_eq_some_iff.1 ht'
  rw [NamedType.declarations_mark] at hu'
  obtain ⟨u, hu, rfl⟩ := List.mem_map.1 hu'
  rw [markDeclaration_body, markBody_of_typesOnly marker htypes] at hrefers
  exact ⟨type, htype, t, ht, u, hu, hrefers⟩

theorem shows_ensureMarkerFor (config : Config) :
    (d.ensureMarkerFor config).Shows marker reached target ↔ d.Shows marker reached target := by
  rw [Shows, types_ensureMarkerFor, Shows]

/-! ## Reports -/

variable {options : CompileOptions} {c : Compilation} {keep : NameSet}

/-- A type is reported as unreachable exactly if the cascade marks it and the rule does not hide
    it. -/
theorem get?_assembled_unreachable_iff {result : CascadeResult} :
    (d.assembled options keep result).exclusions.get? (.type target) = some .unreachable ↔
      (d.selection options keep).get? (.type target) = none ∧ target ∈ result.marked := by
  have hrule : (d.selection options keep).get? (.type target) ≠ some .unreachable := by
    intro hreason
    exact Filter.reason_ne_unreachable ((OrderedMap.get?_eq_some_iff _ _ _).1 hreason) rfl
  show (withCascaded _ _).get? _ = _ ↔ _
  simp [get?_withCascaded_iff, hrule]

/-- A contract does not report a shown type as unreachable. -/
theorem Shows.reason_ne_unreachable (h : d.compile options = .ok (.compiled c))
    (hreached : c.document.reachable (some options.config.marker) = .ok reached)
    (hshows : c.document.Shows options.config.marker reached target)
    (hscalar : isBuiltIn target = false) :
    c.exclusions.get? (.type target) ≠ some .unreachable := by
  intro hreason
  obtain ⟨-, keep, result, -, hrun, rfl⟩ := compile_eq_compiled_iff.1 h
  obtain ⟨-, hmarked⟩ := get?_assembled_unreachable_iff.1 hreason
  rcases cascadeFor_eq_ok_iff.1 hrun with ⟨-, before, hbefore, rfl⟩ | ⟨-, rfl⟩
  · rw [afterPass_marked] at hmarked
    -- The same types are reached and shown as before the pass, which left out what is shown.
    have hsame : before = reached := by
      have hafter := reachable_afterPass hbefore keep
      rw [← reachable_ensureMarkerFor _ options.config] at hafter
      exact Except.ok.inj (hafter.symm.trans hreached)
    subst hsame
    have hpass : (d.tagMarked options keep).Shows options.config.marker before target := by
      have hresult := (shows_ensureMarkerFor options.config).1 hshows
      rw [afterPass_document] at hresult
      exact hresult.of_mark passTest_typesOnly
    exact hpass.not_mem_pendingTypes hbefore hscalar keep hmarked
  · exact List.not_mem_nil hmarked

/-- The definition of a type has the marker in a contract if it has it in the source or the type is
    in the report. -/
theorem carries_compile_iff (h : d.compile options = .ok (.compiled c)) {shown : TypeDecl}
    (hshown : c.document.definedTypes.get? target = some shown) :
    carries options.config.marker shown.directives = true ↔
      (∃ source, d.definedTypes.get? target = some source ∧
        carries options.config.marker source.directives = true) ∨
      ∃ reason, c.exclusions.get? (.type target) = some reason := by
  obtain ⟨-, keep, result, -, hrun, rfl⟩ := compile_eq_compiled_iff.1 h
  obtain ⟨hit, -, hdocument, -, hcascade⟩ := cascadeFor_mark hrun
  rw [compiled_document hdocument, definedTypes_ensureMarkerFor, get?_definedTypes_mark] at hshown
  obtain ⟨source, hsource, rfl⟩ := Option.map_eq_some_iff.1 hshown
  rw [carries_compiled_iff hcascade hsource, OrderedMap.mem_keys_iff, hsource]
  simp only [Option.some.injEq, exists_eq_left']
  rfl

/-- Of the types that a contract shows where unreachable types are removed, those are hidden that
    the source hides and those in the report, where they have other reasons than being unreachable
    unless they are built-in scalars. -/
theorem compile_shown_types (d : Document) (options : CompileOptions) {c : Compilation}
    (h : d.compile options = .ok (.compiled c)) (hremove : options.rule.removeUnreachable = true) :
    ∃ reached, c.document.reachable (some options.config.marker) = .ok reached ∧
      ∀ target, c.document.Shows options.config.marker reached target →
        ∀ shown, c.document.definedTypes.get? target = some shown →
          (carries options.config.marker shown.directives = true ↔
            (∃ source, d.definedTypes.get? target = some source ∧
              carries options.config.marker source.directives = true) ∨
            ∃ reason, c.exclusions.get? (.type target) = some reason ∧
              (reason = .unreachable → isBuiltIn target = true)) := by
  obtain ⟨-, reached, -, -, -, hreached, -⟩ := compiled_settled h hremove
  refine ⟨reached, hreached, ?_⟩
  intro target hshows shown hshown
  rw [carries_compile_iff h hshown]
  apply or_congr_right
  constructor
  · intro hreported
    obtain ⟨reason, hreason⟩ := hreported
    refine ⟨reason, hreason, ?_⟩
    rintro rfl
    cases hscalar : isBuiltIn target with
    | true => rfl
    | false => exact absurd hreason (hshows.reason_ne_unreachable h hreached hscalar)
  · intro hreported
    obtain ⟨reason, hreason, -⟩ := hreported
    exact ⟨reason, hreason⟩

end Document

/-! ## A public shop with hidden parts -/

/-- The arguments for a contract of what is public and not internal. -/
def publicOnly : CompileOptions :=
  { withoutInternal with rule := .ofChoices (some ["public"]) (some ["internal"]) true }

/-- A public field that refers to a type. -/
private def publicField (name type : Name) : Field :=
  ⟨none, name, [], .named type, [tagUse "public"]⟩

/-- A shop whose public fields refer to types that are hidden for every reason: a tag, a missing
    tag, a member without one, a marker in the source, and that references to built-in scalars are
    not followed. -/
def publicShop : Document := ⟨[
  .type ⟨none, "Query", [], .object []
    [publicField "name" "String", publicField "ledger" "Ledger", publicField "since" "Date",
     publicField "note" "Note", publicField "audit" "Audit", publicField "id" "ID"]⟩,
  .type ⟨none, "Ledger", [tagUse "internal"], .object [] [publicField "sum" "Int"]⟩,
  .type ⟨none, "Date", [], .scalar⟩,
  .type ⟨none, "Note", [], .object [] [⟨none, "text", [], .named "String", []⟩]⟩,
  .type ⟨none, "Audit", [⟨defaultMarker, []⟩], .object [] [publicField "by" "String"]⟩,
  .type ⟨none, "ID", [tagUse "public"], .scalar⟩]⟩

/-- Unmarked fields of the root refer to types whose definitions are marked. -/
theorem publicShop_dangling : publicOnly.rule.removeUnreachable = true ∧
    ∃ c reached t, publicShop.compile publicOnly = .ok (.compiled c) ∧
      c.document.reachable (some defaultMarker) = .ok reached ∧ "Query" ∈ reached ∧
      c.document.types.get? "Query" = some t ∧
      carries defaultMarker t.definition.directives = false ∧
      ∀ target ∈ ["Ledger", "Date", "Note", "Audit", "ID"],
        (∃ f ∈ fieldsOf t.definition.body,
          carries defaultMarker f.directives = false ∧ f.type.baseName = target) ∧
        ∃ shown, c.document.definedTypes.get? target = some shown ∧
          carries defaultMarker shown.directives = true := by
  refine ⟨rfl, _, _, _, rfl, rfl, ?_, rfl, ?_, ?_⟩
  · decide +kernel
  · decide +kernel
  · decide +kernel

/-- The root shows the ledger, which is hidden because of its tag. -/
theorem publicShop_shown : ∃ c reached, publicShop.compile publicOnly = .ok (.compiled c) ∧
    publicOnly.rule.removeUnreachable = true ∧
    c.document.reachable (some defaultMarker) = .ok reached ∧
    c.document.Shows defaultMarker reached "Ledger" ∧
    c.exclusions.get? (.type "Ledger") = some .excludedTag ∧
    ∃ shown, c.document.definedTypes.get? "Ledger" = some shown ∧
      carries defaultMarker shown.directives = true := by
  obtain ⟨c, hc, hreason, ⟨shown, hshown⟩, computed, hcomputed, hquery, t, ht, f, hf, hname,
      hopen⟩ : ∃ c, publicShop.compile publicOnly = .ok (.compiled c) ∧
        c.exclusions.get? (.type "Ledger") = some .excludedTag ∧
        (∃ shown, c.document.definedTypes.get? "Ledger" = some shown) ∧
        ∃ computed, c.document.reachable (some defaultMarker) = .ok computed ∧
          "Query" ∈ computed ∧
          ∃ t, c.document.types.get? "Query" = some t ∧
            ∃ f ∈ fieldsOf t.definition.body, f.type.baseName = "Ledger" ∧
              isIgnored (some defaultMarker) f.directives = false :=
    ⟨_, rfl, rfl, ⟨_, rfl⟩, _, rfl, by decide +kernel, _, rfl, _,
      List.mem_cons_of_mem _ List.mem_cons_self, rfl, rfl⟩
  obtain ⟨reached, hreached, htypes⟩ := Document.compile_shown_types publicShop publicOnly hc rfl
  have hsame : computed = reached := Except.ok.inj (hcomputed.symm.trans hreached)
  have hshows : c.document.Shows defaultMarker reached "Ledger" := by
    rw [← hsame, ← hname]
    exact ⟨"Query", hquery, t, ht, t.definition, List.mem_cons_self, .field hf hopen⟩
  refine ⟨c, reached, hc, rfl, hreached, hshows, hreason, shown, hshown, ?_⟩
  exact (htypes "Ledger" hshows shown hshown).2 (Or.inr ⟨_, hreason, fun h => nomatch h⟩)

end SchemaView
