import SchemaView.Proofs.CompileByText
import SchemaView.Proofs.PublicSurface
import SchemaView.Proofs.ReadNames

/-!
# Why a compilation can fail

A failure of the graph of a document or of its roots names a type that is referred to and not
defined. Nothing else that a compilation does can fail: its walks start at defined types, and its
cascade has the one pass that it needs. Marking defines no type and adds no reference, so what a
marked document misses is missing from its source.

## Key results

- `FailsOnlyOnUnknown`: failures name types that a document misses, and this is kept by `bind`
- `failsOnlyOnUnknown_reachable`, `failsOnlyOnUnknown_compile`: stages and the whole
- `audits_of_compile`: on a compiled contract the audits have an answer
- `compile_fails_only_on_unknown`: all outcomes of a compilation
-/

namespace SchemaView

open Sdl

/-! ## Failures that name missing types -/

/-- A type that is not defined and that a document refers to, with where it does. -/
inductive Document.Misses (d : Document) (name : Name) : Referrer → Prop
  | extended (hmention : .extends name ∈ d.mentions none) (hnot : name ∉ d.definedTypes.keys) :
      Misses d name (.extension name)
  | mentioned {source : Name} {relation : Relation} {referrer : Referrer}
      (hmention : .refers source name relation referrer ∈ d.mentions none)
      (hscalar : isBuiltIn name = false) (hnot : name ∉ d.definedTypes.keys) :
      Misses d name referrer
  | root {operation : Operation} (hroot : (operation, name) ∈ d.roots)
      (hnot : name ∉ d.definedTypes.keys) : Misses d name (.root operation)

/-- A computation that fails only by naming a type that a document misses. -/
def FailsOnlyOnUnknown {α : Type} (d : Document) (x : Except Error α) : Prop :=
  ∀ e, x = .error e → ∃ name referrer, e = .unknownType name referrer ∧ d.Misses name referrer

variable {α β : Type} {d : Document}

theorem failsOnlyOnUnknown_ok (a : α) : FailsOnlyOnUnknown d (.ok a) := by
  intro e h
  cases h

theorem FailsOnlyOnUnknown.bind {x : Except Error α} {f : α → Except Error β}
    (hx : FailsOnlyOnUnknown d x) (hf : ∀ a, x = .ok a → FailsOnlyOnUnknown d (f a)) :
    FailsOnlyOnUnknown d (x >>= f) := by
  cases x with
  | error e => exact fun e' h => hx e' (by cases h; rfl)
  | ok a => exact hf a rfl

theorem FailsOnlyOnUnknown.map {x : Except Error α} (f : α → β) (hx : FailsOnlyOnUnknown d x) :
    FailsOnlyOnUnknown d (x.map f) := by
  cases x with
  | error e => exact fun e' h => hx e' (by cases h; rfl)
  | ok a => exact failsOnlyOnUnknown_ok (f a)

/-- Such a computation names an unknown type exactly if it has no answer. -/
theorem FailsOnlyOnUnknown.exists_unknownType_iff {x : Except Error α}
    (hx : FailsOnlyOnUnknown d x) :
    (∃ name referrer, x = .error (.unknownType name referrer)) ↔ ¬ ∃ a, x = .ok a := by
  cases x with
  | error e =>
    obtain ⟨name, referrer, rfl, -⟩ := hx e rfl
    simp
  | ok a => simp

namespace Document

/-- What a marked document misses is missing from its source. -/
theorem Misses.of_mark {marker : Name} {hit : Coordinate → Bool} {name : Name}
    {referrer : Referrer} (h : (d.mark marker hit).Misses name referrer) :
    d.Misses name referrer := by
  cases h with
  | extended hmention hnot =>
    rw [mentions_none_mark] at hmention
    rw [keys_definedTypes_mark] at hnot
    exact .extended hmention hnot
  | mentioned hmention hscalar hnot =>
    rw [mentions_none_mark] at hmention
    rw [keys_definedTypes_mark] at hnot
    exact .mentioned hmention hscalar hnot
  | root hroot hnot =>
    rw [roots_mark] at hroot
    rw [keys_definedTypes_mark] at hnot
    exact .root hroot hnot

theorem mem_bodyMentions_none {ignore : Option Name} {type : Name} {b : TypeBody} {x : Mention}
    (h : x ∈ bodyMentions ignore type b) : x ∈ bodyMentions none type b := by
  rw [mem_bodyMentions] at h ⊢
  rcases h with ⟨f, hf, hx⟩ | ⟨v, hv, hx⟩ | h
  · obtain ⟨-, hx⟩ := mem_fieldMentions.1 hx
    refine Or.inl ⟨f, hf, mem_fieldMentions.2 ⟨rfl, hx.imp id ?_⟩⟩
    rintro ⟨a, ha, -, rfl⟩
    exact ⟨a, ha, rfl, rfl⟩
  · obtain ⟨-, hx⟩ := mem_inputFieldMentions.1 hx
    exact Or.inr (Or.inl ⟨v, hv, mem_inputFieldMentions.2 ⟨rfl, hx⟩⟩)
  · exact Or.inr (Or.inr h)

/-- What is mentioned where some elements are ignored is mentioned. -/
theorem mem_mentions_none {ignore : Option Name} {x : Mention} (h : x ∈ d.mentions ignore) :
    x ∈ d.mentions none := by
  rcases List.mem_append.1 h with h | h
  · obtain ⟨t, ht, hx⟩ := List.mem_flatMap.1 h
    exact List.mem_append_left _ (List.mem_flatMap.2 ⟨t, ht, mem_bodyMentions_none hx⟩)
  · obtain ⟨t, ht, hx⟩ := List.mem_flatMap.1 h
    refine List.mem_append_right _ (List.mem_flatMap.2 ⟨t, ht, ?_⟩)
    rw [extensionMentions, List.mem_cons] at hx ⊢
    exact hx.imp id mem_bodyMentions_none

/-! ## Stages -/

theorem failsOnlyOnUnknown_typeGraph (d : Document) (ignore : Option Name) :
    FailsOnlyOnUnknown d (d.typeGraph ignore) := by
  intro e h
  simp only [typeGraph] at h
  split at h
  · rename_i error hfind
    cases h
    -- The first mention of a type that is not there.
    obtain ⟨x, hx, herror⟩ := List.exists_of_findSome?_eq_some hfind
    have hmention := mem_mentions_none hx
    cases x with
    | «extends» type =>
      rw [danglingError?] at herror
      split at herror
      · cases herror
      · rename_i hnot
        cases herror
        rw [OrderedMap.contains_iff] at hnot
        exact ⟨_, _, rfl, .extended hmention hnot⟩
    | refers source target relation referrer =>
      rw [danglingError?] at herror
      split at herror
      · cases herror
      · rename_i hnot
        cases herror
        rw [Bool.or_eq_true, not_or, OrderedMap.contains_iff] at hnot
        exact ⟨_, _, rfl, .mentioned hmention (eq_false_of_ne_true hnot.1) hnot.2⟩
    | standsFor interface object => cases herror
  · cases h

theorem failsOnlyOnUnknown_rootTypes (d : Document) : FailsOnlyOnUnknown d d.rootTypes := by
  intro e h
  simp only [rootTypes] at h
  split at h
  · rename_i error hfind
    cases h
    obtain ⟨root, hroot, herror⟩ := List.exists_of_findSome?_eq_some hfind
    rw [rootError?] at herror
    split at herror
    · cases herror
    · rename_i hnot
      cases herror
      rw [OrderedMap.contains_iff] at hnot
      exact ⟨_, _, rfl, .root hroot hnot⟩
  · cases h

theorem failsOnlyOnUnknown_reachable (d : Document) (ignore : Option Name) :
    FailsOnlyOnUnknown d (d.reachable ignore) := by
  refine (d.failsOnlyOnUnknown_typeGraph ignore).bind fun g hgraph => ?_
  refine d.failsOnlyOnUnknown_rootTypes.bind fun roots hroots => ?_
  -- With the graph and the roots there, the walk has an answer.
  obtain ⟨-, rfl⟩ := (d.typeGraph_eq_ok_iff ignore g).1 hgraph
  obtain ⟨hdefined, rfl⟩ := (d.rootTypes_eq_ok_iff roots).1 hroots
  rw [walk_graphOf d ignore (List.forall_mem_map.2 hdefined)]
  exact failsOnlyOnUnknown_ok _

theorem failsOnlyOnUnknown_protectedTypes (d : Document) (config : Config) :
    FailsOnlyOnUnknown d (d.protectedTypes config) := by
  refine FailsOnlyOnUnknown.bind ?_ fun types _ => failsOnlyOnUnknown_ok _
  rw [directiveTypes_eq]
  split
  · exact failsOnlyOnUnknown_ok _
  · refine (d.failsOnlyOnUnknown_typeGraph none).bind fun g hgraph => ?_
    obtain ⟨-, rfl⟩ := (d.typeGraph_eq_ok_iff none g).1 hgraph
    rw [walk_graphOf d none fun n hn => (mem_directiveArgumentTypes.1 hn).2]
    exact failsOnlyOnUnknown_ok _

theorem failsOnlyOnUnknown_cascadeFor (d : Document) (options : CompileOptions) (keep : NameSet) :
    FailsOnlyOnUnknown d (d.cascadeFor options keep) := by
  have hlimit : (1 : Int) ≤ options.config.maxPasses :=
    Int.ofNat_le.2 options.config.one_le_maxPasses
  unfold cascadeFor
  split
  · rw [cascade_eq hlimit]
    exact (d.failsOnlyOnUnknown_reachable _).map _
  · exact failsOnlyOnUnknown_ok _

/-- A compilation fails only by naming a type that the source misses. -/
theorem failsOnlyOnUnknown_compile (d : Document) (options : CompileOptions) :
    FailsOnlyOnUnknown d (d.compile options) := by
  unfold compile
  split
  · refine FailsOnlyOnUnknown.bind ?_ fun c _ => failsOnlyOnUnknown_ok _
    rw [compileValid_eq]
    refine (d.failsOnlyOnUnknown_protectedTypes _).bind fun keep _ => ?_
    refine FailsOnlyOnUnknown.bind ?_ fun result _ => failsOnlyOnUnknown_ok _
    -- The cascade runs on a marked document.
    intro e he
    obtain ⟨name, referrer, rfl, hmisses⟩ :=
      (d.tagMarked options keep).failsOnlyOnUnknown_cascadeFor options keep e he
    exact ⟨name, referrer, rfl, hmisses.of_mark⟩
  · exact failsOnlyOnUnknown_ok _

/-! ## Audits -/

/-- On a compiled contract the audits have an answer. -/
theorem audits_of_compile {options : CompileOptions} {c : Compilation}
    (h : d.compile options = .ok (.compiled c)) :
    ∃ reports, c.audits d options.config = .ok reports := by
  have hrule : c.rule = options.rule := by
    obtain ⟨-, keep, cascade, -, -, rfl⟩ := compile_eq_compiled_iff.1 h
    rfl
  have hsurface : ∃ report, c.surfaceAudit options.config = .ok report := by
    cases hremove : options.rule.removeUnreachable with
    | false =>
      rw [Compilation.surfaceAudit, hrule, hremove]
      exact ⟨_, rfl⟩
    | true =>
      obtain ⟨kept, reached, -, hkept, -, hreached, hsettled⟩ := compiled_settled h hremove
      obtain ⟨report, hreport, -⟩ := Compilation.surfaceAudit_of_settled hkept hreached hsettled
      exact ⟨report, hreport⟩
  obtain ⟨surface, hsurface⟩ := hsurface
  obtain ⟨guarded, hguarded, -⟩ := protectedAudit_of_compile h
  exact ⟨_, by simp only [Compilation.audits, hsurface, hguarded, bind, Except.bind]; rfl⟩

/-- Compiling a contract of a document whose names can be parts of coordinates, as those of every
    document that was read can, either rejects the rule with what is wrong with it, or compiles the
    contract, and then its audits have an answer, or names a type that is referred to and not
    defined. Nothing else can happen if the owners of elements are looked up by the texts of their
    coordinates, marks are written from such texts, and definitions and nodes are looked up by
    name: what is read back and looked up is always there. -/
theorem compile_fails_only_on_unknown (d : Document) (options : CompileOptions)
    (hnames : d.WellNamed) :
    ((options.rule.check ≠ [] ∧ d.compile options = .ok (.rejected options.rule.check)) ∨
      (∃ c reports, d.compile options = .ok (.compiled c) ∧
        c.audits d options.config = .ok reports ∧
        c.remarkedByText options.config = .ok (c.remarked options.config)) ∨
      ∃ name referrer, d.compile options = .error (.unknownType name referrer) ∧
        d.Misses name referrer) ∧
    d.compileByText options = d.compile options ∧
    ∀ e : Document, e.directiveTypesByName = e.directiveTypes ∧
      ∀ ignore, e.reachableByName ignore = e.reachable ignore := by
  refine ⟨?_, compileByText_eq hnames options,
    fun e => ⟨e.directiveTypesByName_eq, e.reachableByName_eq⟩⟩
  cases hrun : d.compile options with
  | error e =>
    obtain ⟨name, referrer, rfl, hmisses⟩ := d.failsOnlyOnUnknown_compile options e hrun
    exact Or.inr (Or.inr ⟨name, referrer, rfl, hmisses⟩)
  | ok result =>
    cases result with
    | compiled c =>
      obtain ⟨reports, hreports⟩ := audits_of_compile hrun
      exact Or.inr (Or.inl ⟨c, reports, rfl, hreports, remarkedByText_eq_ok hnames hrun⟩)
    | rejected verdict =>
      -- A rule is rejected with its own violations, of which there are some.
      have hreject : options.rule.check ≠ [] ∧ verdict = options.rule.check := by
        rw [compile] at hrun
        split at hrun
        · obtain ⟨c, -, hc⟩ := bind_eq_ok_iff.1 hrun
          cases hc
        · rename_i hsome
          cases hrun
          exact ⟨hsome, rfl⟩
      exact Or.inl ⟨hreject.1, by rw [hreject.2]⟩

end Document

/-! ## A shop with owners given by hand -/

/-- A shop as a text, with a ledger behind an internal field. -/
def writtenShopText : String :=
  "type Query \x7b ledger: Ledger @tag(name: \"internal\") \x7d type Ledger \x7b sum: Int \x7d"

/-- The shop of the text. -/
def writtenShop : Document := ⟨[
  .type ⟨none, "Query", [], .object []
    [⟨none, "ledger", [], .named "Ledger", [tagUse "internal"]⟩]⟩,
  .type ⟨none, "Ledger", [], .object [] [⟨none, "sum", [], .named "Int", []⟩]⟩]⟩

/-- The arguments for a contract without what is internal, where owners are given by hand, also for
    a text that is no coordinate. -/
def withHandmadeOwners : CompileOptions :=
  { withoutInternal with
    ownership := some (.ofList
      [("Query.ledger", .ofList ["ledgers"]), ("no..coordinate", .ofList ["nobody"])]) }

/-- The field is hidden from its owner and what it refers to is marked by the cascade. All of it is
    found by texts as well, and the audits have an answer. -/
theorem writtenShop_has_answers : Document.parse writtenShopText = .ok writtenShop ∧
    ∃ c reports, writtenShop.compile withHandmadeOwners = .ok (.compiled c) ∧
      c.hiddenBySubgraph = [("ledgers", 1)] ∧ c.cascaded = ["Ledger"] ∧
      writtenShop.compileByText withHandmadeOwners = .ok (.compiled c) ∧
      c.audits writtenShop withHandmadeOwners.config = .ok reports ∧
      c.remarkedByText withHandmadeOwners.config
        = .ok (c.remarked withHandmadeOwners.config) := by
  have hread : Document.parse writtenShopText = .ok writtenShop := rfl
  obtain ⟨houtcome, hbytext, -⟩ := Document.compile_fails_only_on_unknown writtenShop
    withHandmadeOwners (Document.wellNamed_of_parse hread)
  obtain ⟨compiled, hcompiled, hcounts, hcascaded⟩ : ∃ compiled,
      writtenShop.compile withHandmadeOwners = .ok (.compiled compiled) ∧
      compiled.hiddenBySubgraph = [("ledgers", 1)] ∧ compiled.cascaded = ["Ledger"] :=
    ⟨_, rfl, by decide +kernel, by decide +kernel⟩
  rw [hcompiled] at houtcome hbytext
  rcases houtcome with ⟨hcheck, -⟩ | ⟨c, reports, hc, hreports, hremarked⟩ | ⟨_, _, herror, -⟩
  · exact absurd (by decide +kernel) hcheck
  · cases hc
    exact ⟨hread, _, reports, hcompiled, hcounts, hcascaded, hbytext, hreports, hremarked⟩
  · cases herror

end SchemaView
