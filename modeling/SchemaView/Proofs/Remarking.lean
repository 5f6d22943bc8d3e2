import SchemaView.Proofs.ProtectedTypes
import SchemaView.Proofs.PublicSurface
import SchemaView.Proofs.RenderLength

/-!
# When a contract can be marked once more

The audit of the marks marks a contract again: what the report has, then all declarations of types
other than those whose definition is not marked. The first changes nothing. The second goes further
than a compilation if the source has marks of its own. A type whose definition is marked from the
start has all its declarations marked again, and so has one that is not defined at all, but a
compilation marks them only if the rule hides the type or the cascade takes a pass and may mark the
type.

## Key results

- `markDefinition_eq_self_iff`: which marks leave a definition as it is
- `cascadeFor_hides_iff`: what a cascade marks of types that are marked or not defined
- `remarked_eq_markTypes`: the report adds nothing
- `idempotenceAudit_iff_marked`: the audit, read off the contract
- `compile_idempotenceAudit_iff`: the audit, read off the source
-/

namespace SchemaView

open Sdl

variable {marker : Name} {hit : Coordinate → Bool}

/-! ## Marks that change nothing -/

theorem markIf_eq_self_iff {condition : Bool} {directives : List Directive} :
    markIf condition marker directives = directives ↔
      (condition = true → carries marker directives = true) := by
  cases condition with
  | false => simp
  | true =>
    constructor
    · intro h _
      rw [← h]
      exact carries_markDirectives marker directives
    · intro h
      rw [markIf, if_pos rfl, markDirectives, if_pos (h rfl)]

/-- Marking types leaves a declaration as it is if its type is spared or it is marked. -/
theorem markDeclaration_eq_self_iff (h : TypesOnly hit) (t : TypeDecl) :
    markDeclaration marker hit t = t ↔
      (hit (.type t.name) = true → carries marker t.directives = true) := by
  rw [← markIf_eq_self_iff, markDeclaration, markBody_of_typesOnly marker h]
  exact ⟨congrArg TypeDecl.directives, fun hsame => by rw [hsame]⟩

/-- Marking types leaves a definition as it is unless it declares a type that is to be marked and is
    not. -/
theorem markDefinition_eq_self_iff (h : TypesOnly hit) (x : Definition) :
    markDefinition marker hit x = x ↔ ∀ t, declaration? x = some t →
      hit (.type t.name) = true → carries marker t.directives = true := by
  cases x with
  | type t | typeExtension t =>
    simp only [markDefinition, Definition.type.injEq, Definition.typeExtension.injEq, declaration?,
      Option.some.injEq, forall_eq']
    exact markDeclaration_eq_self_iff h t
  | _ => simp [markDefinition, declaration?]

namespace Document

variable {d : Document} {options : CompileOptions} {keep : NameSet} {result : CascadeResult}

/-! ## Declarations -/

/-- All declarations of types in the text, among them definitions that a later one replaces. -/
def writtenDeclarations (d : Document) : List TypeDecl := d.definitions.filterMap declaration?

theorem writtenDeclarations_mark : (d.mark marker hit).writtenDeclarations
    = d.writtenDeclarations.map (markDeclaration marker hit) := by
  have hcomp : declaration? ∘ markDefinition marker hit
      = fun x => (declaration? x).map (markDeclaration marker hit) :=
    funext fun x => declaration?_markDefinition marker hit x
  simp only [writtenDeclarations, mark, List.filterMap_map, hcomp, ← List.map_filterMap]

theorem writtenDeclarations_ensureMarkerFor (config : Config) :
    (d.ensureMarkerFor config).writtenDeclarations = d.writtenDeclarations := by
  rcases d.definitions_ensureMarkerFor config with hsame | hadded
  · rw [writtenDeclarations, hsame, writtenDeclarations]
  · rw [writtenDeclarations, hadded, List.filterMap_append, writtenDeclarations]
    exact List.append_nil _

theorem unmarkedTypes_ensureMarkerFor (config : Config) :
    (d.ensureMarkerFor config).unmarkedTypes marker = d.unmarkedTypes marker := by
  simp [unmarkedTypes]

/-- Marking types leaves the text of a document as it is exactly if every declaration of a type that
    is to be marked is marked. -/
theorem render_markTypes_eq_iff :
    (d.markTypes marker keep).render = d.render ↔
      ∀ t ∈ d.writtenDeclarations, t.name ∉ keep → carries marker t.directives = true := by
  have htypes : TypesOnly fun c => c.isType && !decide (c.typeName ∈ keep) := fun c hc =>
    (Bool.and_eq_true _ _ ▸ hc).1
  have htest : ∀ n, ((Coordinate.type n).isType && !decide ((Coordinate.type n).typeName ∈ keep))
      = true ↔ n ∉ keep := fun n => by
    show (true && !decide (n ∈ keep)) = true ↔ _
    rw [Bool.true_and, Bool.not_eq_true', decide_eq_false_iff_not]
  rw [markTypes, render_mark_eq_iff d htypes]
  constructor
  · intro h t ht hkeep
    obtain ⟨x, hx, ht⟩ := List.mem_filterMap.1 ht
    exact (markDefinition_eq_self_iff htypes x).1 (h x hx) t ht ((htest t.name).2 hkeep)
  · intro h x hx
    refine (markDefinition_eq_self_iff htypes x).2 fun t ht hkeep => ?_
    exact h t (List.mem_filterMap.2 ⟨x, hx, ht⟩) ((htest t.name).1 hkeep)

/-! ## What a cascade marks -/

/-- What is reached is defined. -/
theorem defined_of_reached {reached : NameSet} {ignore : Option Name} {n : Name}
    (h : d.reachable ignore = .ok reached) (hn : n ∈ reached) : n ∈ d.definedTypes.keys :=
  (((reachable_iff_derivable d ignore h).1 n).1 hn).defined

/-- The cascade of a compilation marks the types that it reports. Of the types that have no unmarked
    definition it marks all that are not kept if it takes a pass, and none otherwise. -/
theorem cascadeFor_hides_iff (h : d.cascadeFor options keep = .ok result) :
    ∃ hit, result.document = d.mark options.config.marker hit ∧
      (∀ n ∈ result.marked, hit (.type n) = true) ∧
      ∀ n, n ∉ d.unmarkedTypes options.config.marker →
        (hit (.type n) = true ↔ result.passes ≠ 0 ∧ n ∉ keep) := by
  rcases cascadeFor_eq_ok_iff.1 h with ⟨-, reached, hreached, rfl⟩ | ⟨-, rfl⟩
  · refine ⟨_, afterPass_document, fun n hn => ?_, fun n hn => ?_⟩
    · rw [afterPass_marked] at hn
      exact passTest_of_mem_pendingTypes hn
    · -- A type that is reached has an unmarked definition.
      have hnot : n ∉ reached := by
        intro hmem
        obtain ⟨t, ht⟩ := (OrderedMap.mem_keys_iff _ _).1 (defined_of_reached hreached hmem)
        exact hn (mem_unmarkedTypes.2 ⟨t, ht, unmarked_of_reached hreached hmem ht⟩)
      simp only [passTest, afterPass, Coordinate.isType, Coordinate.typeName, NameSet.mem_union,
        hnot, false_or]
      split <;> simp_all
  · exact ⟨fun _ => false, (mark_none _ d).symm, fun n hn => absurd hn List.not_mem_nil,
      fun n _ => by simp⟩

/-! ## The audit -/

variable {c : Compilation}

/-- A compilation marks what it reports. Of the types that have no unmarked definition in the source
    it marks those that it reports and, if the cascade takes a pass, all that are not protected. -/
theorem exists_mark_of_types (h : d.compile options = .ok (.compiled c)) :
    ∃ hit, c.document = (d.mark options.config.marker hit).ensureMarkerFor options.config ∧
      (∀ k ∈ c.exclusions.keys, hit k = true) ∧
      ∀ n, n ∉ d.unmarkedTypes options.config.marker →
        (hit (.type n) = true ↔ Coordinate.type n ∈ c.exclusions.keys ∨
          (c.passes ≠ 0 ∧ ¬ d.IsProtected options.config n)) := by
  obtain ⟨-, kept, result, hkept, hrun, rfl⟩ := compile_eq_compiled_iff.1 h
  obtain ⟨hit, hdocument, hmarked, hpasses⟩ := cascadeFor_hides_iff hrun
  refine ⟨hiddenTest (d.selection options kept).keys hit, compiled_document hdocument, ?_, ?_⟩
  · intro k hk
    rw [hiddenTest_iff]
    rcases (mem_keys_withCascaded _ _ k).1 hk with hselected | ⟨n, hn, rfl⟩
    · exact Or.inl hselected
    · exact Or.inr (hmarked n hn)
  · intro n hn
    have hreport : Coordinate.type n ∈ (d.assembled options kept result).exclusions.keys ↔
        Coordinate.type n ∈ (d.selection options kept).keys ∨ n ∈ result.marked := by
      show _ ∈ (withCascaded _ _).keys ↔ _
      rw [mem_keys_withCascaded]
      simp
    -- The cascade starts from a document in which more is marked.
    have hpass := hpasses n fun hunmarked => hn (mem_unmarkedTypes_mark.1 hunmarked).1
    rw [hiddenTest_iff, hpass, hreport, ← mem_protectedTypes hkept]
    constructor
    · exact fun hk => hk.imp Or.inl id
    · rintro ((hselected | hcascaded) | hk)
      · exact Or.inl hselected
      · exact Or.inr (hpass.1 (hmarked n hcascaded))
      · exact Or.inr hk

/-- Marking the contract by its report changes nothing, so what is left of marking it once more is to
    mark the declarations of types other than those whose definitions are not marked. -/
theorem remarked_eq_markTypes (h : d.compile options = .ok (.compiled c)) :
    c.remarked options.config = c.document.markTypes options.config.marker
      (.ofList (c.document.unmarkedTypes options.config.marker)) := by
  obtain ⟨hit, hdocument, hreport, -⟩ := exists_mark_of_types h
  have hsame : c.document.markAt options.config.marker c.exclusions.keys = c.document := by
    rw [hdocument]
    exact mark_ensureMarkerFor _ _ (mark_mark_of_imp fun k hk => hreport k (by simpa using hk))
  rw [Compilation.remarked, hsame]

/-- The audit of the marks passes exactly if every declaration in the contract is marked whose type
    has no unmarked definition. -/
theorem idempotenceAudit_iff_marked (h : d.compile options = .ok (.compiled c)) :
    (c.idempotenceAudit options.config).passed = true ↔ ∀ u ∈ c.document.writtenDeclarations,
      u.name ∉ c.document.unmarkedTypes options.config.marker →
      carries options.config.marker u.directives = true := by
  have hsdl : c.sdl = c.document.render := by
    obtain ⟨-, _, _, -, -, rfl⟩ := compile_eq_compiled_iff.1 h
    rfl
  have hpassed : (c.idempotenceAudit options.config).passed = true ↔
      (c.remarked options.config).render = c.document.render := by
    rw [Compilation.idempotenceAudit, hsdl]
    split <;> simp_all
  rw [hpassed, remarked_eq_markTypes h, render_markTypes_eq_iff]
  simp only [NameSet.mem_ofList]

/-- A compiled contract passes the audit of its marks exactly if every declaration of a type that has
    no unmarked definition in the source is marked there or gets marked, because the rule or the
    cascade hides the type, or because the cascade takes a pass and the type is not protected. -/
theorem compile_idempotenceAudit_iff (d : Document) (options : CompileOptions) {c : Compilation}
    (h : d.compile options = .ok (.compiled c)) :
    (c.idempotenceAudit options.config).passed = true ↔ ∀ u ∈ d.writtenDeclarations,
      u.name ∉ d.unmarkedTypes options.config.marker →
      carries options.config.marker u.directives = true ∨
        Coordinate.type u.name ∈ c.exclusions.keys ∨
        (c.passes ≠ 0 ∧ ¬ d.IsProtected options.config u.name) := by
  rw [idempotenceAudit_iff_marked h]
  obtain ⟨hit, hdocument, -, hhit⟩ := exists_mark_of_types h
  rw [hdocument, writtenDeclarations_ensureMarkerFor, writtenDeclarations_mark,
    unmarkedTypes_ensureMarkerFor, List.forall_mem_map]
  refine forall₂_congr fun u _ => ?_
  rw [mem_unmarkedTypes_mark, markDeclaration_name, markDeclaration_directives, carries_markIf,
    Bool.or_eq_true]
  by_cases hsource : u.name ∈ d.unmarkedTypes options.config.marker
  · -- An unmarked definition is marked with all declarations of its type, or not at all.
    refine ⟨fun _ hnot => absurd hsource hnot, fun _ hnot => Or.inr ?_⟩
    exact eq_true_of_ne_false fun hmiss => hnot ⟨hsource, hmiss⟩
  · rw [← hhit u.name hsource]
    exact ⟨fun hmarked _ => hmarked fun hboth => hsource hboth.1, fun hmarked _ => hmarked hsource⟩

end Document

/-! ## A shop with a ledger that is marked from the start -/

/-- A shop whose ledger is marked. An extension of the ledger is not. -/
def markedLedgerShop (others : List Definition) : Document := ⟨[
  .type ⟨none, "Query", [], .object [] [⟨none, "shop", [], .named "Shop", []⟩]⟩,
  .type ⟨none, "Shop", [], .object [] [⟨none, "name", [], .named "String", []⟩]⟩,
  .type ⟨none, "Ledger", [⟨defaultMarker, []⟩], .object [] [⟨none, "sum", [], .named "Int", []⟩]⟩,
  .typeExtension ⟨none, "Ledger", [], .object [] [⟨none, "audit", [], .named "Int", []⟩]⟩]
  ++ others⟩

/-- A type that nothing refers to. -/
def stockType : Definition :=
  .type ⟨none, "Stock", [], .object [] [⟨none, "count", [], .named "Int", []⟩]⟩

/-- With another type that is not reached, a pass marks the extension, and the audit passes. -/
theorem markedLedgerShop_audited : ∃ c,
    (markedLedgerShop [stockType]).compile withoutInternal = .ok (.compiled c) ∧
    c.cascaded = ["Stock"] ∧ (c.idempotenceAudit withoutInternal.config).passed = true := by
  obtain ⟨c, hc, hcascaded, hpasses⟩ : ∃ c,
      (markedLedgerShop [stockType]).compile withoutInternal = .ok (.compiled c) ∧
      c.cascaded = ["Stock"] ∧ c.passes = 1 :=
    ⟨_, rfl, by decide +kernel, by decide +kernel⟩
  have hkept : (markedLedgerShop [stockType]).protectedTypes withoutInternal.config = .ok .empty :=
    rfl
  refine ⟨c, hc, hcascaded, (Document.compile_idempotenceAudit_iff _ withoutInternal hc).2 ?_⟩
  -- Nothing is protected, so the pass marks whatever has no unmarked definition.
  intro u _ _
  refine Or.inr (Or.inr ⟨by rw [hpasses]; decide, ?_⟩)
  rw [← Document.mem_protectedTypes hkept]
  exact NameSet.not_mem_empty _

/-- Without it there is no pass. The extension stays unmarked, and the audit marks it. -/
theorem markedLedgerShop_fails_audit : ∃ c,
    (markedLedgerShop []).compile withoutInternal = .ok (.compiled c) ∧
    c.exclusions.keys = [] ∧ (c.idempotenceAudit withoutInternal.config).passed = false :=
  ⟨_, rfl, by decide +kernel, by decide +kernel⟩

end SchemaView
