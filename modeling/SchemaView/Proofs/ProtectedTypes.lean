import SchemaView.Audit
import SchemaView.Proofs.CompileCorrect
import SchemaView.Proofs.DeclaredReach

/-!
# Protected types pass through untouched

A configuration names types that are never hidden, and so are the types that arguments of directives
use, with all types that can be derived from these when nothing is ignored. The rule skips protected
types and the cascade keeps them, so no mark of a compilation has the coordinate of one, and marking
leaves declarations alone whose coordinates are spared.

## Key results

- `mem_protectedTypes`: the computed set has the protected types
- `exists_sparing_mark`: a compilation is one marking, which spares the protected types
- `getElem?_mark_of_spared`: spared declarations stay what they are and where they are
- `protectedAudit_of_untouched`: the audit of the protected types passes where they did not change
- `leavesAlone_of_compile`: every compilation leaves the protected types alone
-/

namespace SchemaView

open Sdl

namespace Document

/-- The types that the arguments of defined directives have. As elsewhere, of several definitions
    of one directive the last one counts. -/
def UsedByDirective (d : Document) (n : Name) : Prop :=
  ∃ t ∈ d.definedDirectives.values, ∃ a ∈ t.arguments, a.type.baseName = n

/-- The types that are never hidden: those that the configuration names, and the defined types that
    arguments of directives use, closed under every step of the document. -/
def IsProtected (d : Document) (config : Config) (n : Name) : Prop :=
  n ∈ config.protectedTypes ∨ d.Derivable none d.UsedByDirective n

variable {d : Document}

/-! ## The computed set -/

theorem Derivable.exists_start {ignore : Option Name} {start : Name → Prop} {n : Name}
    (h : d.Derivable ignore start n) : ∃ m ∈ d.definedTypes.keys, start m := by
  induction h with
  | start hstart ht _ => exact ⟨_, (OrderedMap.mem_keys_iff _ _).2 ⟨_, ht⟩, hstart⟩
  | step _ _ _ _ ih => exact ih

/-- The defined types that arguments of directives have, in ascending order. -/
def directiveArgumentTypes (d : Document) : List Name :=
  (NameSet.ofList (d.definedDirectives.values.flatMap fun t =>
    t.arguments.map fun a => a.type.baseName)).names.filter d.definedTypes.contains

theorem mem_directiveArgumentTypes {n : Name} :
    n ∈ d.directiveArgumentTypes ↔ d.UsedByDirective n ∧ n ∈ d.definedTypes.keys := by
  rw [directiveArgumentTypes, List.mem_filter, OrderedMap.contains_iff, ← NameSet.mem_def,
    NameSet.mem_ofList, List.mem_flatMap]
  simp only [List.mem_map, UsedByDirective]

theorem directiveTypes_eq : d.directiveTypes = if d.directiveArgumentTypes.isEmpty then .ok .empty
    else d.typeGraph none >>= fun g => g.walk d.directiveArgumentTypes := rfl

/-- Unless there is no such type, they are what a walk enters that ignores nothing. -/
theorem directiveTypes_eq_ok_iff {types : NameSet} : d.directiveTypes = .ok types ↔
    (d.directiveArgumentTypes = [] ∧ types = .empty)
    ∨ (d.directiveArgumentTypes ≠ []
      ∧ (∀ x ∈ d.mentions none, danglingError? d.definedTypes x = none)
      ∧ (d.graphOf none).reachable d.directiveArgumentTypes = types) := by
  rw [directiveTypes_eq]
  by_cases hempty : d.directiveArgumentTypes = []
  · simp [hempty, eq_comm]
  · have hdefined : ∀ n ∈ d.directiveArgumentTypes, n ∈ d.definedTypes.keys := fun n hn =>
      (mem_directiveArgumentTypes.1 hn).2
    rw [if_neg (by rwa [List.isEmpty_iff]), bind_eq_ok_iff]
    simp only [typeGraph_eq_ok_iff, hempty, false_and, false_or, Ne, not_false_eq_true, true_and]
    -- The walk starts at defined types, so only the graph can fail.
    constructor
    · rintro ⟨g, ⟨hmentioned, rfl⟩, hwalk⟩
      rw [walk_graphOf d none hdefined] at hwalk
      exact ⟨hmentioned, Except.ok.inj hwalk⟩
    · rintro ⟨hmentioned, rfl⟩
      exact ⟨_, ⟨hmentioned, rfl⟩, walk_graphOf d none hdefined⟩

/-- What the arguments of directives use, with everything that these types refer to. -/
theorem mem_directiveTypes {types : NameSet} (h : d.directiveTypes = .ok types) (n : Name) :
    n ∈ types ↔ d.Derivable none d.UsedByDirective n := by
  rcases directiveTypes_eq_ok_iff.1 h with ⟨hempty, rfl⟩ | ⟨-, hmentioned, rfl⟩
  · -- No such type is defined, so there is nothing to derive from.
    refine iff_of_false (NameSet.not_mem_empty n) fun hn => ?_
    obtain ⟨m, hm, hstart⟩ := hn.exists_start
    have hmem := mem_directiveArgumentTypes.2 ⟨hstart, hm⟩
    rw [hempty] at hmem
    exact List.not_mem_nil hmem
  · have hdefined : ∀ m ∈ d.directiveArgumentTypes, m ∈ d.definedTypes.keys := fun m hm =>
      (mem_directiveArgumentTypes.1 hm).2
    rw [TypeGraph.mem_reachable_iff, reaches_iff_derivable hmentioned hdefined]
    constructor
    · exact Derivable.mono fun m _ hm => (mem_directiveArgumentTypes.1 hm).1
    · exact Derivable.mono fun m hm hstart => mem_directiveArgumentTypes.2 ⟨hstart, hm⟩

/-- The computed set has exactly the protected types. -/
theorem mem_protectedTypes {config : Config} {kept : NameSet}
    (h : d.protectedTypes config = .ok kept) (n : Name) : n ∈ kept ↔ d.IsProtected config n := by
  obtain ⟨types, htypes, hkept⟩ := bind_eq_ok_iff.1 h
  rw [← pure_eq_ok_iff.1 hkept, NameSet.mem_union, mem_directiveTypes htypes n]
  rfl

end Document

/-! ## Marks that spare types -/

namespace Filter

variable {f : Filter} {name : Name} {t : NamedType} {c : Coordinate}

theorem Hides.typeName_eq (h : f.Hides name t c) : c.typeName = name := by
  cases h <;> rfl

/-- Nothing is hidden of the types that are left out of account. -/
theorem typeName_not_mem_of_mem_exclusions {d : Document} {skip : NameSet}
    (h : c ∈ (f.exclusions d skip).keys) : c.typeName ∉ skip := by
  obtain ⟨name, t, -, hskip, hhides⟩ := mem_keys_exclusions.1 h
  rw [hhides.typeName_eq]
  exact hskip

end Filter

namespace Document

variable {d : Document} {options : CompileOptions} {keep : NameSet} {marker : Name}
  {hit : Coordinate → Bool}

/-- A cascade marks and reports none of the types that it is to keep. -/
theorem cascadeFor_spares {result : CascadeResult} (h : d.cascadeFor options keep = .ok result) :
    ∃ hit, result.document = d.mark options.config.marker hit ∧
      (∀ c, hit c = true → c.typeName ∉ keep) ∧ ∀ n ∈ result.marked, n ∉ keep := by
  rcases cascadeFor_eq_ok_iff.1 h with ⟨-, reached, -, rfl⟩ | ⟨-, rfl⟩
  · -- What is to be kept counts as visible in the pass.
    refine ⟨_, afterPass_document, fun c hc hkeep => ?_, fun n hn hkeep => ?_⟩
    · exact not_mem_of_passTest hc (NameSet.mem_union.2 (Or.inr hkeep))
    · rw [afterPass_marked] at hn
      obtain ⟨t, -, hvisible, -⟩ := mem_pendingTypes.1 hn
      exact hvisible (NameSet.mem_union.2 (Or.inr hkeep))
  · refine ⟨fun _ => false, (mark_none _ d).symm, ?_, ?_⟩
    · exact fun _ hc => nomatch hc
    · exact fun n hn => absurd hn List.not_mem_nil

/-- A compiled schema is the source after one marking, which spares the protected types, as do the
    elements in the report. -/
theorem exists_sparing_mark {c : Compilation} (h : d.compile options = .ok (.compiled c)) :
    ∃ kept hit, d.protectedTypes options.config = .ok kept ∧
      c.document = (d.mark options.config.marker hit).ensureMarkerFor options.config ∧
      (∀ k, hit k = true → k.typeName ∉ kept) ∧ ∀ k ∈ c.exclusions.keys, k.typeName ∉ kept := by
  obtain ⟨-, kept, result, hkept, hrun, rfl⟩ := compile_eq_compiled_iff.1 h
  obtain ⟨hit, hdocument, hhit, hmarked⟩ := cascadeFor_spares hrun
  have hselected : ∀ k ∈ (d.selection options kept).keys, k.typeName ∉ kept := fun k hk =>
    Filter.typeName_not_mem_of_mem_exclusions hk
  refine ⟨kept, hiddenTest (d.selection options kept).keys hit, hkept,
    compiled_document hdocument, fun k hk => ?_, fun k hk => ?_⟩
  · rcases hiddenTest_iff.1 hk with hk | hk
    · exact hselected k hk
    · exact hhit k hk
  · -- The report has what the rule hides and what the cascade marked.
    rcases (mem_keys_withCascaded _ _ k).1 hk with hk | ⟨n, hn, rfl⟩
    · exact hselected k hk
    · exact hmarked n hn

/-- A test that spares the types to keep fails at every coordinate of such a type. -/
theorem spared_of_mem {kept : NameSet} (h : ∀ k, hit k = true → k.typeName ∉ kept) {n : Name}
    (hn : n ∈ kept) (k : Coordinate) (hk : k.typeName = n) : hit k = false := by
  cases hhit : hit k with
  | false => rfl
  | true => exact absurd (hk ▸ hn) (h k hhit)

/-- A definition whose type is spared is not changed by marking. -/
theorem markDefinition_of_spared {x : Definition} {t : TypeDecl} (ht : declaration? x = some t)
    (hspared : ∀ k, k.typeName = t.name → hit k = false) :
    markDefinition marker hit x = x := by
  cases x <;> simp only [declaration?, Option.some.injEq, reduceCtorEq] at ht <;> subst ht <;>
    simp only [markDefinition, markDeclaration_of_spared marker hspared]

/-- The declarations of a spared type are in the same places before and after a document was marked
    and a definition of the marker added. -/
theorem getElem?_mark_of_spared {config : Config} {x : Definition} {t : TypeDecl}
    (ht : declaration? x = some t) (hspared : ∀ k, k.typeName = t.name → hit k = false) (i : Nat) :
    ((d.mark marker hit).ensureMarkerFor config).definitions[i]? = some x
      ↔ d.definitions[i]? = some x := by
  -- The added definition is no declaration of a type, so it is not meant.
  have htail : ((d.mark marker hit).ensureMarkerFor config).definitions[i]? = some x
      ↔ (d.mark marker hit).definitions[i]? = some x := by
    rcases definitions_ensureMarkerFor (d.mark marker hit) config with h | h
    · rw [h]
    · rw [h, List.getElem?_append]
      split
      · rfl
      · rename_i hlt
        have hnone : (d.mark marker hit).definitions[i]? = none :=
          List.getElem?_eq_none_iff.2 (Nat.le_of_not_lt hlt)
        rw [hnone, List.getElem?_singleton]
        constructor
        · intro hx
          split at hx
          · cases hx
            cases ht
          · cases hx
        · exact fun hx => nomatch hx
  rw [htail, mark, List.getElem?_map, Option.map_eq_some_iff]
  constructor
  · rintro ⟨y, hy, rfl⟩
    rw [declaration?_markDefinition, Option.map_eq_some_iff] at ht
    -- Marking keeps the name of the type, so that of the source is spared as well.
    obtain ⟨u, hu, rfl⟩ := ht
    rw [markDefinition_of_spared hu hspared]
    exact hy
  · exact fun hx => ⟨x, hx, markDefinition_of_spared ht hspared⟩

/-- The definition of a spared type is the same before and after a document was marked. -/
theorem get?_definedTypes_mark_of_spared {n : Name}
    (hspared : ∀ k : Coordinate, k.typeName = n → hit k = false) :
    (d.mark marker hit).definedTypes.get? n = d.definedTypes.get? n := by
  rw [get?_definedTypes_mark]
  cases ht : d.definedTypes.get? n with
  | none => rfl
  | some t =>
    have hname := name_of_get?_definedTypes ht
    rw [Option.map_some, markDeclaration_of_spared marker (hname ▸ hspared)]

end Document

/-! ## Types that are left alone -/

/-- A compilation leaves a type alone if the definitions and extensions of the type stay as they are
    and where they are, and nothing of the type is in the report. -/
structure Compilation.LeavesAlone (c : Compilation) (source : Document) (n : Name) : Prop where
  declared : ∀ x t, declaration? x = some t → t.name = n → ∀ i : Nat,
    (c.document.definitions[i]? = some x ↔ source.definitions[i]? = some x)
  unreported : ∀ k ∈ c.exclusions.keys, k.typeName ≠ n

namespace Document

variable {d : Document} {options : CompileOptions}

/-- The protected types can be found out where a contract is compiled, and are the same in the
    contract. -/
theorem exists_protectedTypes_of_compile {c : Compilation}
    (h : d.compile options = .ok (.compiled c)) :
    ∃ kept, d.protectedTypes options.config = .ok kept ∧
      c.document.protectedTypes options.config = .ok kept ∧
      ∀ n, n ∈ kept ↔ d.IsProtected options.config n := by
  obtain ⟨kept, hit, hkept, hdocument, -⟩ := exists_sparing_mark h
  refine ⟨kept, hkept, ?_, mem_protectedTypes hkept⟩
  rw [hdocument, protectedTypes_compiled]
  exact hkept

/-- Every compilation leaves the protected types alone. -/
theorem leavesAlone_of_compile {c : Compilation} (h : d.compile options = .ok (.compiled c))
    {n : Name} (hn : d.IsProtected options.config n) : c.LeavesAlone d n := by
  obtain ⟨kept, hit, hkept, hdocument, hhit, hreport⟩ := exists_sparing_mark h
  have hkeep : n ∈ kept := (mem_protectedTypes hkept n).2 hn
  constructor
  · intro x t ht hname i
    rw [hdocument]
    exact getElem?_mark_of_spared ht (spared_of_mem hhit (hname ▸ hkeep)) i
  · intro k hk hname
    exact hreport k hk (hname ▸ hkeep)

end Document

/-! ## The audit -/

namespace Compilation

/-- The audit of the protected types passes where their definitions did not change. -/
theorem protectedAudit_of_untouched {c : Compilation} {source : Document} {config : Config}
    {kept : NameSet} (hkept : source.protectedTypes config = .ok kept)
    (h : ∀ n ∈ kept, c.document.definedTypes.get? n = source.definedTypes.get? n) :
    ∃ report, c.protectedAudit source config = .ok report ∧ report.passed = true := by
  have htouched : (kept.names.filter source.definedTypes.contains).filterM
      (isTouched c.document.definedTypes source.definedTypes config.marker) = .ok [] := by
    have hnone : ∀ n ∈ kept.names.filter source.definedTypes.contains,
        isTouched c.document.definedTypes source.definedTypes config.marker n = .ok false := by
      intro n hn
      obtain ⟨hn, hdefined⟩ := List.mem_filter.1 hn
      -- A defined type is found in the source, hence in the contract.
      rw [OrderedMap.contains_iff, OrderedMap.mem_keys_iff] at hdefined
      obtain ⟨t, ht⟩ := hdefined
      have hafter : c.document.definedTypes.get? n = some t := (h n hn).trans ht
      simp only [isTouched, hafter, ht, Bool.and_not_self]
    rw [filterM_eq_ok hnone]
    simp
  simp only [protectedAudit, hkept, bind, Except.bind]
  split
  · exact ⟨_, rfl, rfl⟩
  · simp only [htouched]
    exact ⟨_, rfl, rfl⟩

end Compilation

namespace Document

variable {d : Document} {options : CompileOptions}

/-- In a contract the definitions of protected types are those of the source, so the audit of the
    protected types passes. -/
theorem protectedAudit_of_compile {c : Compilation} (h : d.compile options = .ok (.compiled c)) :
    ∃ report, c.protectedAudit d options.config = .ok report ∧ report.passed = true := by
  obtain ⟨kept, hit, hkept, hdocument, hhit, -⟩ := exists_sparing_mark h
  refine Compilation.protectedAudit_of_untouched hkept fun n hn => ?_
  rw [hdocument, definedTypes_ensureMarkerFor]
  exact get?_definedTypes_mark_of_spared (spared_of_mem hhit hn)

end Document

end SchemaView
