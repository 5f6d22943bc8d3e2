import SchemaView.Contract.Compilation
import SchemaView.Proofs.CascadeCorrect
import SchemaView.Proofs.ExclusionCorrect
import SchemaView.Proofs.MarkerDefinition

/-!
# What compiling a contract does

Takes `Document.compile` apart. A compilation succeeds exactly if the rule is valid, the protected
types can be found out and the cascade answers; its result is put together from what the rule hides,
what the cascade marks, and one marking of the source. Everything else about compilations is
derived from these three statements.

## Key results

- `compile_eq_compiled_iff`: when a contract is compiled, and to what
- `cascadeFor_eq_ok_iff`: what the cascade of a compilation has done
- `compiled_document`: the compiled schema is the source after one marking
- `compiled_settled`: what it protects and reaches, and that nothing is left to mark
- `get?_withCascaded_iff`, `entries_withCascaded`: the report is what the rule hides, then what the
  cascade marks
-/

namespace SchemaView

open Sdl

namespace Document

/-! ## Stages -/

/-- What the rule hides of a document, given the protected types. -/
def selection (d : Document) (options : CompileOptions) (keep : NameSet) : Exclusions :=
  (Filter.mk options.rule (options.tags.getD (d.filterTags options.config))
    options.ownership).exclusions d keep

/-- The document in which everything that the rule hides is marked. -/
def tagMarked (d : Document) (options : CompileOptions) (keep : NameSet) : Document :=
  d.markAt options.config.marker (d.selection options keep).keys

/-- A compilation, given the protected types and what the cascade has done. -/
def assembled (d : Document) (options : CompileOptions) (keep : NameSet) (cascade : CascadeResult) :
    Compilation :=
  let tags := options.tags.getD (d.filterTags options.config)
  let exclusions := withCascaded (d.selection options keep) cascade.marked
  let document := cascade.document.ensureMarkerFor options.config
  { contractName := options.contractName
    document := document
    sdl := document.render
    rule := options.rule
    exclusions := exclusions
    cascaded := cascade.marked
    passes := cascade.passes
    hiddenBySubgraph :=
      match options.ownership with
      | some o => countBySubgraph o exclusions.keys
      | none => []
    tags := tagsAmong tags exclusions.keys }

variable {d : Document} {options : CompileOptions} {keep : NameSet}

/-- The definition, with its result put together in one place. -/
theorem compileValid_eq : d.compileValid options = (do
    let keep ← d.protectedTypes options.config
    let cascade ← (d.tagMarked options keep).cascadeFor options keep
    pure (d.assembled options keep cascade)) := rfl

/-- A contract with a valid rule is compiled if the protected types can be found out and the
    cascade answers. -/
theorem compileValid_eq_ok_iff {c : Compilation} : d.compileValid options = .ok c ↔
    ∃ keep cascade, d.protectedTypes options.config = .ok keep ∧
      (d.tagMarked options keep).cascadeFor options keep = .ok cascade ∧
      d.assembled options keep cascade = c := by
  simp only [compileValid_eq, bind_eq_ok_iff, pure_eq_ok_iff]
  constructor
  · rintro ⟨keep, hkeep, cascade, hcascade, rfl⟩
    exact ⟨keep, cascade, hkeep, hcascade, rfl⟩
  · rintro ⟨keep, cascade, hkeep, hcascade, rfl⟩
    exact ⟨keep, hkeep, cascade, hcascade, rfl⟩

/-- A contract is compiled if the rule is valid, the protected types can be found out and the
    cascade answers. -/
theorem compile_eq_compiled_iff {c : Compilation} : d.compile options = .ok (.compiled c) ↔
    options.rule.check = [] ∧ ∃ keep cascade, d.protectedTypes options.config = .ok keep ∧
      (d.tagMarked options keep).cascadeFor options keep = .ok cascade ∧
      d.assembled options keep cascade = c := by
  rw [← compileValid_eq_ok_iff, compile]
  cases hcheck : options.rule.check with
  | nil => cases d.compileValid options <;> simp [Functor.map, Except.map]
  | cons violation violations => simp

/-- A rule is rejected with what is wrong with it. -/
theorem compile_eq_rejected_iff {verdict : Verdict} :
    d.compile options = .ok (.rejected verdict) ↔
      options.rule.check ≠ [] ∧ verdict = options.rule.check := by
  rw [compile]
  cases hcheck : options.rule.check with
  | nil => cases d.compileValid options <;> simp [Functor.map, Except.map]
  | cons violation violations => simp [eq_comm]

/-- A compilation that selects the same elements as another one, under the same configuration, goes
    the same way. What is put together at the end may still differ. -/
theorem compileValid_of_selection {options' : CompileOptions} {change : Compilation → Compilation}
    (hconfig : options'.config = options.config)
    (hremove : options'.rule.removeUnreachable = options.rule.removeUnreachable)
    (hselection : ∀ keep, d.selection options' keep = d.selection options keep)
    (hassembled : ∀ keep cascade,
      d.assembled options' keep cascade = change (d.assembled options keep cascade)) :
    d.compileValid options' = (d.compileValid options).map change := by
  have hcascade : ∀ keep, (d.tagMarked options' keep).cascadeFor options' keep
      = (d.tagMarked options keep).cascadeFor options keep := by
    intro keep
    simp only [tagMarked, cascadeFor, hconfig, hremove, hselection]
  simp only [compileValid_eq, hconfig, hcascade, hassembled]
  -- Stage by stage: what fails fails for both.
  cases d.protectedTypes options.config with
  | error e => rfl
  | ok keep =>
    simp only [bind, Except.bind]
    cases (d.tagMarked options keep).cascadeFor options keep <;> rfl

/-- The cascade of a compilation is one pass at most, and none if the rule keeps what is
    unreachable. -/
theorem cascadeFor_eq_ok_iff {result : CascadeResult} :
    d.cascadeFor options keep = .ok result ↔
      (options.rule.removeUnreachable = true ∧
        ∃ reached, d.reachable (some options.config.marker) = .ok reached ∧
          d.afterPass options.config.marker (reached.union keep) = result)
      ∨ (options.rule.removeUnreachable = false ∧ result = ⟨d, [], 0⟩) := by
  have hlimit : (1 : Int) ≤ options.config.maxPasses :=
    Int.ofNat_le.2 options.config.one_le_maxPasses
  unfold cascadeFor
  cases options.rule.removeUnreachable with
  | true => simp [cascade_eq_ok_iff hlimit]
  | false => simp [eq_comm]

/-- Whether or not there was a pass, the cascade of a compilation is a marking of types, and what it
    marks is what it reports. -/
theorem cascadeFor_mark {result : CascadeResult} (h : d.cascadeFor options keep = .ok result) :
    ∃ hit, TypesOnly hit ∧ result.document = d.mark options.config.marker hit ∧
      (∀ n ∈ result.marked, n ∈ d.definedTypes.keys) ∧
      ∀ n t, d.definedTypes.get? n = some t →
        ((carries options.config.marker t.directives = true ∨ hit (.type n) = true) ↔
          (carries options.config.marker t.directives = true ∨ n ∈ result.marked)) := by
  -- A pass marks by its test, and no pass marks nothing.
  rcases cascadeFor_eq_ok_iff.1 h with ⟨-, reached, -, rfl⟩ | ⟨-, rfl⟩
  · refine ⟨_, passTest_typesOnly, afterPass_document, ?_, ?_⟩
    · intro n hn
      rw [afterPass_marked] at hn
      obtain ⟨t, ht, -⟩ := mem_pendingTypes.1 hn
      exact (OrderedMap.mem_keys_iff _ _).2 ⟨t, ht⟩
    · intro n t ht
      rw [afterPass_marked]
      exact carries_or_passTest_iff ht
  · refine ⟨fun _ => false, (fun _ h => nomatch h), (mark_none _ d).symm, ?_, ?_⟩
    · intro n hn
      exact absurd hn List.not_mem_nil
    · intro n t _
      simp

/-! ## Protected types -/

/-- Marking changes nothing about which types the arguments of directives use. -/
theorem directiveTypes_mark (d : Document) (marker : Name) (hit : Coordinate → Bool) :
    (d.mark marker hit).directiveTypes = d.directiveTypes := by
  have hcontains : (d.mark marker hit).definedTypes.contains = d.definedTypes.contains :=
    funext fun name => contains_definedTypes_mark marker hit d name
  simp only [directiveTypes, definedDirectives_mark, hcontains, typeGraph_none_mark]

/-! ## The compiled schema -/

/-- The test by which a compilation marks the source: the elements that the rule hides, then what
    the cascade marks. -/
def hiddenTest (selected : List Coordinate) (hit : Coordinate → Bool) (c : Coordinate) : Bool :=
  decide (c ∈ selected) || hit c

theorem hiddenTest_iff {selected : List Coordinate} {hit : Coordinate → Bool} {c : Coordinate} :
    hiddenTest selected hit c = true ↔ c ∈ selected ∨ hit c = true := by
  simp [hiddenTest]

/-- The compiled schema is the source after one marking, with a definition of the marker where one
    is wanted. -/
theorem compiled_document {result : CascadeResult} {hit : Coordinate → Bool}
    (h : result.document = (d.tagMarked options keep).mark options.config.marker hit) :
    (d.assembled options keep result).document
      = (d.mark options.config.marker
          (hiddenTest (d.selection options keep).keys hit)).ensureMarkerFor options.config := by
  rw [tagMarked, markAt, mark_mark] at h
  simp only [assembled, h]
  rfl

/-- Where the source is marked and a definition of the marker added, the same types are
    protected. -/
theorem protectedTypes_compiled (d : Document) (config : Config) (marker : Name)
    (hit : Coordinate → Bool) :
    ((d.mark marker hit).ensureMarkerFor config).protectedTypes config
      = d.protectedTypes config := by
  simp only [protectedTypes, directiveTypes_ensureMarkerFor, directiveTypes_mark]

/-- Where the source is marked and a definition of the marker added, the rule hides the same if it
    goes by the same tags and owners. -/
theorem exclusions_compiled (f : Filter) (d : Document) (config : Config) (marker : Name)
    (hit : Coordinate → Bool) (skip : NameSet) :
    f.exclusions ((d.mark marker hit).ensureMarkerFor config) skip = f.exclusions d skip := by
  rw [exclusions_ensureMarkerFor, Filter.exclusions_mark]

/-! ## Settled contracts -/

/-- Where a rule removes unreachable types, its contract protects and reaches the same types as the
    source with the elements marked that the rule hides, and has nothing left to mark. -/
theorem compiled_settled {c : Compilation}
    (h : d.compile options = .ok (.compiled c)) (hremove : options.rule.removeUnreachable = true) :
    ∃ kept reached, d.protectedTypes options.config = .ok kept ∧
      c.document.protectedTypes options.config = .ok kept ∧
      (d.tagMarked options kept).reachable (some options.config.marker) = .ok reached ∧
      c.document.reachable (some options.config.marker) = .ok reached ∧
      c.document.pendingTypes options.config.marker (reached.union kept) = [] := by
  obtain ⟨-, kept, result, hkept, hrun, rfl⟩ := compile_eq_compiled_iff.1 h
  obtain ⟨hit, -, hdocument, -⟩ := cascadeFor_mark hrun
  have hcompiled := compiled_document hdocument
  rcases cascadeFor_eq_ok_iff.1 hrun with ⟨-, reached, hreached, rfl⟩ | ⟨hkeeps, -⟩
  · refine ⟨kept, reached, hkept, ?_, hreached, ?_, ?_⟩
    · rw [hcompiled, protectedTypes_compiled]
      exact hkept
    · show (ensureMarkerFor _ options.config).reachable _ = _
      rw [reachable_ensureMarkerFor]
      exact reachable_afterPass hreached kept
    · show (ensureMarkerFor _ options.config).pendingTypes _ _ = _
      rw [pendingTypes_ensureMarkerFor]
      exact pendingTypes_afterPass _ _ _
  · rw [hremove] at hkeeps
    cases hkeeps

end Document

/-! ## The report -/

/-- The report has what the rule hides and what the cascade marks. -/
theorem mem_keys_withCascaded (e : Exclusions) (types : List Name) (c : Coordinate) :
    c ∈ (withCascaded e types).keys ↔ c ∈ e.keys ∨ ∃ n ∈ types, c = .type n := by
  unfold withCascaded
  induction types generalizing e with
  | nil => simp
  | cons n types ih =>
    rw [List.foldl_cons, ih, OrderedMap.mem_keys_insertNew]
    simp only [List.mem_cons, exists_eq_or_imp]
    exact or_assoc.trans or_left_comm

/-- The report has the reasons of the rule, and unreachability for what only the cascade marks. -/
theorem get?_withCascaded_iff {e : Exclusions} {types : List Name} {c : Coordinate}
    {reason : Reason} : (withCascaded e types).get? c = some reason ↔
      e.get? c = some reason ∨
        (reason = .unreachable ∧ e.get? c = none ∧ ∃ n ∈ types, c = .type n) := by
  unfold withCascaded
  induction types generalizing e with
  | nil => simp
  | cons n types ih =>
    rw [List.foldl_cons, ih, OrderedMap.get?_insertNew]
    simp only [← OrderedMap.get?_eq_none_iff, List.mem_cons, exists_eq_or_imp]
    -- The first type is reported for the cascade if nothing was reported of it before.
    by_cases hc : c = .type n
    · subst hc
      cases e.get? (.type n) <;> simp [eq_comm]
    · simp [hc]

/-- The report is what the rule hides, then what the cascade marks, as long as that is something
    else. -/
theorem entries_withCascaded (e : Exclusions) (types : List Name) (hnd : types.Nodup)
    (hnew : ∀ n ∈ types, Coordinate.type n ∉ e.keys) :
    (withCascaded e types).entries
      = e.entries ++ types.map fun n => (Coordinate.type n, Reason.unreachable) := by
  unfold withCascaded
  induction types generalizing e with
  | nil => simp
  | cons n types ih =>
    have hn : Coordinate.type n ∉ e.keys := hnew n List.mem_cons_self
    have hinsert : e.insertNew (.type n) .unreachable = e.insert (.type n) .unreachable :=
      if_neg hn
    obtain ⟨hfresh, hnd⟩ := List.nodup_cons.1 hnd
    rw [List.foldl_cons, hinsert, ih _ hnd, OrderedMap.entries_insert_of_not_mem _ _ _ hn]
    · simp
    · intro m hm
      rw [OrderedMap.mem_keys_insert]
      rintro (h | h)
      · cases h
        exact hfresh hm
      · exact hnew m (List.mem_cons_of_mem _ hm) h

/-! ## Contracts without internal elements -/

/-- A use of the usual tag directive. -/
def tagUse (tag : String) : Directive := ⟨defaultTagDirective, [⟨"name", .string ⟨tag, false⟩⟩]⟩

/-- The arguments for a contract without what is internal and what is not reached any more. -/
def withoutInternal : CompileOptions where
  rule := .ofChoices none (some ["internal"]) true
  config := .plain
  ownership := none
  tags := none
  contractName := none

end SchemaView
