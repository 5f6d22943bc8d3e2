import SchemaView.Proofs.CompileCorrect

/-!
# A contract compiles to itself

A compiled contract is a document again. Tags and owners are the same on it as on its source, the
same types are protected, and so the rule hides the same elements. All of them are marked already,
nothing is left for the cascade, and the definition of the marker is there if one is wanted.
Compiling a contract once more therefore gives the contract, and a report without what the
first cascade had marked.

## Key results

- `tags_compiled`, `ownership_compiled`: what is read off the contract is what the source says
- `selection_compiled`: the rule hides the same elements of the contract
- `tagMarked_compiled`, `cascadeFor_compiled`: marking and cascade leave the contract as it is
- `compile_compiled`: the second compilation
-/

namespace SchemaView

open Sdl

/-! ## The same arguments -/

/-- A compilation goes by the tags of its document: it reads them, or is given what it would
    read. -/
def CompileOptions.UsesTagsOf (options : CompileOptions) (d : Document) : Prop :=
  options.tags = none ∨ options.tags = some (d.filterTags options.config)

/-- A compilation is given the owners that its document names. -/
def CompileOptions.UsesOwnersOf (options : CompileOptions) (d : Document) : Prop :=
  ∃ o, d.ownership = .ok o ∧ options.ownership = some o

/-- The arguments of a second compilation that follows a first one: the same rule and configuration,
    and the same tags and owners, or both times those of the document at hand. -/
structure Rerun (source contract : Document) (first second : CompileOptions) : Prop where
  rule : second.rule = first.rule
  config : second.config = first.config
  tags : second.tags = first.tags ∨ (first.UsesTagsOf source ∧ second.UsesTagsOf contract)
  ownership : second.ownership = first.ownership
    ∨ (first.UsesOwnersOf source ∧ second.UsesOwnersOf contract)

/-! ## The report without the cascade -/

/-- Without the types that a cascade marked, a report is what the rule hides. -/
theorem filter_withCascaded (e : Exclusions) (types : List Name) (hnd : types.Nodup)
    (hnew : ∀ n ∈ types, Coordinate.type n ∉ e.keys)
    (hreason : ∀ entry ∈ e.entries, entry.2 ≠ .unreachable) :
    (withCascaded e types).filter (fun _ reason => decide (reason ≠ .unreachable)) = e := by
  apply OrderedMap.ext_entries
  rw [OrderedMap.entries_filter, entries_withCascaded e types hnd hnew, List.filter_append]
  have hselected : e.entries.filter (fun entry => decide (entry.2 ≠ .unreachable)) = e.entries := by
    rw [List.filter_eq_self]
    exact fun entry he => decide_eq_true (hreason entry he)
  have hcascaded : (types.map fun n => (Coordinate.type n, Reason.unreachable)).filter
      (fun entry => decide (entry.2 ≠ .unreachable)) = [] := by
    simp
  rw [hselected, hcascaded, List.append_nil]

namespace Document

variable {d : Document} {options : CompileOptions} {kept : NameSet} {result : CascadeResult}

/-- What the cascade of a compilation marks is not hidden by the rule, and marked once. -/
theorem cascaded_fresh (h : (d.tagMarked options kept).cascadeFor options kept = .ok result) :
    result.marked.Nodup ∧ ∀ n ∈ result.marked,
      Coordinate.type n ∉ (d.selection options kept).keys := by
  rcases cascadeFor_eq_ok_iff.1 h with ⟨-, reached, -, rfl⟩ | ⟨-, rfl⟩
  · rw [afterPass_marked]
    refine ⟨nodup_pendingTypes _ _ _, fun n hn hselected => ?_⟩
    -- A type that the rule hides is marked before the cascade.
    rw [tagMarked, markAt, mem_pendingTypes_mark] at hn
    simp [hselected] at hn
  · exact ⟨List.nodup_nil, fun n hn => absurd hn List.not_mem_nil⟩

/-! ## What is read off a contract -/

variable {c : Compilation}

/-- The contract is the source with marks, those on what the rule hides among them, and a definition
    of the marker if one is wanted. -/
theorem exists_mark_of_compile (h : d.compile options = .ok (.compiled c)) :
    ∃ kept hit, d.protectedTypes options.config = .ok kept ∧
      c.document = (d.mark options.config.marker
        (hiddenTest (d.selection options kept).keys hit)).ensureMarkerFor options.config := by
  obtain ⟨-, kept, result, hkept, hrun, rfl⟩ := compile_eq_compiled_iff.1 h
  obtain ⟨hit, -, hdocument, -⟩ := cascadeFor_mark hrun
  exact ⟨kept, hit, hkept, compiled_document hdocument⟩

/-- A contract has the tags of its source, whatever the tag directive is called. -/
theorem tags_compiled (h : d.compile options = .ok (.compiled c)) (name : Option Name) :
    c.document.tags name = d.tags name := by
  obtain ⟨_, _, -, hdocument⟩ := exists_mark_of_compile h
  rw [hdocument, tags_ensureMarkerFor, tags_mark]

/-- A contract is filtered by the tags of its source. -/
theorem filterTags_compiled (h : d.compile options = .ok (.compiled c)) (config : Config) :
    c.document.filterTags config = d.filterTags config := by
  obtain ⟨_, _, -, hdocument⟩ := exists_mark_of_compile h
  rw [filterTags, tags_compiled h, hdocument, tagDirective_ensureMarkerFor, tagDirective_mark,
    filterTags]

/-- A contract names the owners that its source names. -/
theorem ownership_compiled (h : d.compile options = .ok (.compiled c)) :
    c.document.ownership = d.ownership := by
  obtain ⟨_, _, -, hdocument⟩ := exists_mark_of_compile h
  rw [hdocument, ownership_ensureMarkerFor, ownership_mark]

/-! ## The second compilation, stage by stage -/

variable {again : CompileOptions}

/-- The contract is filtered by the tags by which the source was. -/
theorem getD_tags_compiled (h : d.compile options = .ok (.compiled c))
    (hagain : Rerun d c.document options again) :
    again.tags.getD (c.document.filterTags again.config)
      = options.tags.getD (d.filterTags options.config) := by
  have huses : ∀ {o : CompileOptions} {e : Document}, o.UsesTagsOf e →
      o.tags.getD (e.filterTags o.config) = e.filterTags o.config := by
    rintro o e (hnone | hsome)
    · rw [hnone, Option.getD_none]
    · rw [hsome, Option.getD_some]
  -- Given once for both, or read both times: then off documents with the same tags.
  rcases hagain.tags with hsame | ⟨hfirst, hsecond⟩
  · rw [hsame, hagain.config, filterTags_compiled h]
  · rw [huses hfirst, huses hsecond, hagain.config, filterTags_compiled h]

/-- The second compilation is given the owners of the first. -/
theorem ownership_eq_of_rerun (h : d.compile options = .ok (.compiled c))
    (hagain : Rerun d c.document options again) : again.ownership = options.ownership := by
  rcases hagain.ownership with hsame | ⟨⟨o, ho, hfirst⟩, ⟨o', ho', hsecond⟩⟩
  · exact hsame
  · rw [ownership_compiled h, ho] at ho'
    rw [hfirst, hsecond, Except.ok.inj ho']

/-- The rule hides the same elements of the contract as of the source. -/
theorem selection_compiled (h : d.compile options = .ok (.compiled c))
    (hagain : Rerun d c.document options again) (kept : NameSet) :
    c.document.selection again kept = d.selection options kept := by
  obtain ⟨_, _, -, hdocument⟩ := exists_mark_of_compile h
  rw [selection, selection, getD_tags_compiled h hagain, ownership_eq_of_rerun h hagain,
    hagain.rule, hdocument, exclusions_compiled]

/-- Elements that were marked among others are marked. -/
theorem markAt_mark_hiddenTest {marker : Name} (selected : List Coordinate)
    (hit : Coordinate → Bool) :
    (d.mark marker (hiddenTest selected hit)).markAt marker selected
      = d.mark marker (hiddenTest selected hit) :=
  mark_mark_of_imp fun _ hk => hiddenTest_iff.2 (Or.inl (of_decide_eq_true hk))

/-- What the rule hides is marked in the contract. -/
theorem tagMarked_compiled (h : d.compile options = .ok (.compiled c))
    (hagain : Rerun d c.document options again)
    (hkept : d.protectedTypes options.config = .ok kept) :
    c.document.tagMarked again kept = c.document := by
  obtain ⟨kept', hit, hkept', hdocument⟩ := exists_mark_of_compile h
  obtain rfl : kept = kept' := Except.ok.inj (hkept.symm.trans hkept')
  rw [tagMarked, selection_compiled h hagain, hagain.config, hdocument]
  exact mark_ensureMarkerFor _ _ (markAt_mark_hiddenTest _ hit)

/-- Nothing is left for a second cascade. -/
theorem cascadeFor_compiled (h : d.compile options = .ok (.compiled c))
    (hagain : Rerun d c.document options again)
    (hkept : d.protectedTypes options.config = .ok kept) :
    c.document.cascadeFor again kept = .ok ⟨c.document, [], 0⟩ := by
  rw [cascadeFor_eq_ok_iff, hagain.rule, hagain.config]
  cases hremove : options.rule.removeUnreachable with
  | false => exact Or.inr ⟨rfl, rfl⟩
  | true =>
    obtain ⟨kept', reached, hkept', -, -, hreached, hsettled⟩ := compiled_settled h hremove
    obtain rfl : kept = kept' := Except.ok.inj (hkept.symm.trans hkept')
    exact Or.inl ⟨rfl, reached, hreached, afterPass_of_settled hsettled⟩

/-- The definition of the marker is not added to a contract again. -/
theorem ensureMarkerFor_compiled (h : d.compile options = .ok (.compiled c)) :
    c.document.ensureMarkerFor options.config = c.document := by
  obtain ⟨_, _, -, hdocument⟩ := exists_mark_of_compile h
  rw [hdocument, ensureMarkerFor_ensureMarkerFor]

/-- A contract has the tags and owners of its source. Compiled once more with the same arguments,
    or with tags and owners read off it anew, it is accepted, stays as it is without a pass of the
    cascade, and is reported without the types that nothing visible reached. -/
theorem compile_compiled (d : Document) (options : CompileOptions) {c : Compilation}
    (h : d.compile options = .ok (.compiled c)) :
    (∀ name, c.document.tags name = d.tags name) ∧ c.document.ownership = d.ownership ∧
    ∀ again, Rerun d c.document options again →
      ∃ c', c.document.compile again = .ok (.compiled c') ∧ c'.document = c.document ∧
        c'.cascaded = [] ∧ c'.passes = 0 ∧
        c'.exclusions = c.exclusions.filter fun _ reason => decide (reason ≠ .unreachable) := by
  refine ⟨tags_compiled h, ownership_compiled h, fun again hagain => ?_⟩
  obtain ⟨hcheck, kept, result, hkept, hrun, hc⟩ := compile_eq_compiled_iff.1 h
  have hkept' : c.document.protectedTypes again.config = .ok kept := by
    obtain ⟨_, _, -, hdocument⟩ := exists_mark_of_compile h
    rw [hagain.config, hdocument, protectedTypes_compiled]
    exact hkept
  -- Marking what the rule hides gives the contract back, and its cascade is over at once.
  have hrun' : (c.document.tagMarked again kept).cascadeFor again kept
      = .ok ⟨c.document, [], 0⟩ := by
    rw [tagMarked_compiled h hagain hkept]
    exact cascadeFor_compiled h hagain hkept
  refine ⟨c.document.assembled again kept ⟨c.document, [], 0⟩,
    compile_eq_compiled_iff.2 ⟨hagain.rule ▸ hcheck, kept, _, hkept', hrun', rfl⟩, ?_, rfl, rfl, ?_⟩
  · show c.document.ensureMarkerFor again.config = c.document
    rw [hagain.config, ensureMarkerFor_compiled h]
  · obtain ⟨hnd, hnew⟩ := cascaded_fresh hrun
    have hreport : c.exclusions = withCascaded (d.selection options kept) result.marked := by
      rw [← hc]
      rfl
    rw [hreport, filter_withCascaded _ _ hnd hnew fun _ he => Filter.reason_ne_unreachable he]
    show c.document.selection again kept = d.selection options kept
    exact selection_compiled h hagain kept

end Document

/-! ## A shop that is marked by its tag directive -/

/-- The use of the directive that names the owner of a type. -/
private def ofShop : Directive := ⟨"join__type", [⟨"graph", .enum "SHOP"⟩]⟩

/-- A supergraph of one subgraph, in which an internal field alone mentions the ledger. -/
def ownedShop : Document := ⟨[
  .type ⟨none, graphEnum, [], .enum
    [⟨none, "SHOP", [⟨"join__graph", [⟨"name", .string ⟨"shop", false⟩⟩]⟩]⟩]⟩,
  .type ⟨none, "Query", [ofShop], .object []
    [⟨none, "shop", [], .named "Shop", []⟩,
     ⟨none, "ledger", [], .named "Ledger", [tagUse "internal"]⟩]⟩,
  .type ⟨none, "Shop", [ofShop], .object [] [⟨none, "name", [], .named "String", []⟩]⟩,
  .type ⟨none, "Ledger", [ofShop], .object [] [⟨none, "sum", [], .named "Int", []⟩]⟩]⟩

/-- A contract of the shop with given owners and tags, in which uses of the tag directive mark. -/
def ownedShopOptions (owners : Ownership) (tags : Option TagMap) : CompileOptions :=
  { withoutInternal with
    config := { Config.default with marker := defaultTagDirective }
    ownership := some owners
    tags := tags }

/-- The mark on the ledger is a use of the tag directive, and yet the contract compiles to itself by
    the tags that are read off it. -/
theorem ownedShop_compiles_to_itself : ∃ owners c c', ownedShop.ownership = .ok owners ∧
    ownedShop.compile (ownedShopOptions owners none) = .ok (.compiled c) ∧
    c.exclusions.entries
      = [(.member "Query" "ledger", .excludedTag), (.type "Ledger", .unreachable)] ∧
    c.document.compile (ownedShopOptions owners
      (some (c.document.filterTags (ownedShopOptions owners none).config)))
      = .ok (.compiled c') ∧
    c'.document = c.document ∧
    c'.exclusions.entries = [(.member "Query" "ledger", .excludedTag)] := by
  obtain ⟨owners, c, howners, hc, hreport⟩ : ∃ owners c, ownedShop.ownership = .ok owners ∧
      ownedShop.compile (ownedShopOptions owners none) = .ok (.compiled c) ∧
      c.exclusions.entries
        = [(.member "Query" "ledger", .excludedTag), (.type "Ledger", .unreachable)] :=
    ⟨_, _, rfl, rfl, by decide +kernel⟩
  obtain ⟨-, -, hagain⟩ := Document.compile_compiled ownedShop _ hc
  obtain ⟨c', hc', hdocument, -, -, hreport'⟩ := hagain (ownedShopOptions owners
      (some (c.document.filterTags (ownedShopOptions owners none).config)))
    ⟨rfl, rfl, Or.inr ⟨Or.inl rfl, Or.inr rfl⟩, Or.inl rfl⟩
  refine ⟨owners, c, c', howners, hc, hreport, hc', hdocument, ?_⟩
  rw [hreport', OrderedMap.entries_filter, hreport]
  rfl

end SchemaView
