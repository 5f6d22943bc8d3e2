import Mathlib.Algebra.Order.Ring.Nat
import Mathlib.Data.List.Basic
import SchemaView.Proofs.CompileFailures
import SchemaView.Table

/-!
# The views of a report agree

What a compilation hides is shown in three ways: by the number of hidden elements of each subgraph,
by a table with a row for each element, and by the list of hidden types. The numbers are counted
while a contract is compiled, table and list are made later from its report. All of them show the
same elements with the same owners, also where an argument has the owners of its field and where
the owners are looked up by the text of an element.

## Key results

- `mem_countBySubgraph_iff`, `sum_countBySubgraph`: single counts, and their sum as a count of pairs
- `perm_sortedExclusions`: the rows of a table are the entries of the report, in another order
- `compile_views_agree`: the three views of a compiled contract
-/

namespace SchemaView

open Sdl

/-! ## Counting owners -/

/-- The members of a set, picked out of a larger set, in the same order. -/
theorem NameSet.filter_names {s u : NameSet} (h : ∀ x ∈ s, x ∈ u) :
    (u.names.filter fun x => decide (x ∈ s)) = s.names := by
  have hascending : (u.names.filter fun x => decide (x ∈ s)).Pairwise (· < ·) :=
    u.ascending.sublist List.filter_sublist
  have heq : NameSet.mk _ hascending = s := by
    apply NameSet.ext
    intro x
    rw [NameSet.mem_def, List.mem_filter, decide_eq_true_eq, and_iff_right_iff_imp]
    exact h x
  exact congrArg NameSet.names heq

/-- One set more is counted once for each of its members. -/
private theorem sum_countP_cons (names : List String) (s : NameSet) (sets : List NameSet) :
    (names.map fun x => (s :: sets).countP fun t => decide (x ∈ t)).sum
      = (names.countP fun x => decide (x ∈ s))
        + (names.map fun x => sets.countP fun t => decide (x ∈ t)).sum := by
  induction names with
  | nil => rfl
  | cons x names ih =>
    rw [List.map_cons, List.sum_cons, ih, List.countP_cons, List.countP_cons, List.map_cons,
      List.sum_cons]
    omega

/-- Pairs of a set and a member, counted by members and counted by sets. -/
theorem NameSet.sum_countP (sets : List NameSet) {u : NameSet} (h : ∀ s ∈ sets, ∀ x ∈ s, x ∈ u) :
    (u.names.map fun x => sets.countP fun s => decide (x ∈ s)).sum
      = (sets.map fun s => s.names.length).sum := by
  induction sets with
  | nil => simp [List.map_const']
  | cons s sets ih =>
    rw [List.forall_mem_cons] at h
    rw [sum_countP_cons, ih h.2, List.countP_eq_length_filter, NameSet.filter_names h.1,
      List.map_cons, List.sum_cons]

/-- Each subgraph that owns something is counted, in ascending order. -/
theorem ascending_countBySubgraph (o : Ownership) (elements : List Coordinate) :
    ((countBySubgraph o elements).map Prod.fst).Pairwise (· < ·) := by
  simp only [countBySubgraph, List.map_map, Function.comp_def, List.map_id_fun', id_eq]
  exact NameSet.ascending _

/-- The count of a subgraph is the number of elements that it owns, and only subgraphs that own
    something are counted. -/
theorem mem_countBySubgraph_iff {o : Ownership} {elements : List Coordinate} {subgraph : String}
    {n : Nat} : (subgraph, n) ∈ countBySubgraph o elements ↔
      n = (elements.countP fun c => decide (subgraph ∈ o.owners c)) ∧ 0 < n := by
  have hcount : ((elements.map o.owners).countP fun set => decide (subgraph ∈ set))
      = elements.countP fun c => decide (subgraph ∈ o.owners c) := List.countP_map
  simp only [countBySubgraph, List.mem_map, Prod.mk.injEq]
  constructor
  · rintro ⟨name, hname, rfl, rfl⟩
    refine ⟨hcount, ?_⟩
    obtain hempty | ⟨set, hset, howner⟩ := NameSet.mem_foldl_union.1 (NameSet.mem_def.2 hname)
    · exact absurd hempty (NameSet.not_mem_empty _)
    · exact List.countP_pos_iff.2 ⟨set, hset, decide_eq_true howner⟩
  · rintro ⟨rfl, hpos⟩
    refine ⟨subgraph, ?_, rfl, hcount⟩
    obtain ⟨c, hc, howner⟩ := List.countP_pos_iff.1 hpos
    refine NameSet.mem_def.1 (NameSet.mem_foldl_union.2 (Or.inr ?_))
    exact ⟨o.owners c, List.mem_map_of_mem hc, of_decide_eq_true howner⟩

/-- The counts add up to the number of owners of all elements. -/
theorem sum_countBySubgraph (o : Ownership) (elements : List Coordinate) :
    ((countBySubgraph o elements).map Prod.snd).sum
      = (elements.map fun c => (o.owners c).names.length).sum := by
  have hsum := NameSet.sum_countP (elements.map o.owners)
    (u := (elements.map o.owners).foldl NameSet.union .empty) fun s hs x hx =>
      NameSet.mem_foldl_union.2 (Or.inr ⟨s, hs, hx⟩)
  simpa only [countBySubgraph, List.map_map, Function.comp_def] using hsum

/-! ## The table -/

/-- The tags of the elements of a map that are among those given are their tags in the map. -/
theorem of_tagsAmong (tags : TagMap) {elements : List Coordinate} {c : Coordinate}
    (hc : c ∈ elements) : (tagsAmong tags elements).of c = tags.of c := by
  have hentries : ∀ k set, (k, set) ∈ (elements.filterMap fun c =>
      (tags.get? c).map fun set => (c, set)) ↔ k ∈ elements ∧ tags.get? k = some set := by
    intro k set
    simp only [List.mem_filterMap, Option.map_eq_some_iff, Prod.mk.injEq]
    constructor
    · rintro ⟨_, hmem, _, hget, rfl, rfl⟩
      exact ⟨hmem, hget⟩
    · rintro ⟨hmem, hget⟩
      exact ⟨k, hmem, set, hget, rfl, rfl⟩
  have hget : (tagsAmong tags elements).get? c = tags.get? c := by
    apply Option.ext
    intro set
    rw [tagsAmong, OrderedMap.get?_ofList_of_functional, hentries]
    · exact and_iff_right hc
    · intro k v w hv hw
      rw [hentries] at hv hw
      exact Option.some.inj (hv.2.symm.trans hw.2)
  rw [TagMap.of, TagMap.of, hget]

namespace Compilation

variable {c : Compilation}

/-- Every hidden element is found by its text, and nothing else is. -/
theorem find?_entry (h : ∀ k ∈ c.exclusions.keys, k.WellNamed) {e : Coordinate × Reason}
    (he : e ∈ c.exclusions.entries) :
    (c.exclusions.entries.find? fun entry => entry.1.render == e.1.render) = some e := by
  cases hfind : c.exclusions.entries.find? fun entry => entry.1.render == e.1.render with
  | none => exact absurd (beq_self_eq_true _) (List.find?_eq_none.1 hfind e he)
  | some found =>
    have hfound := List.mem_of_find?_eq_some hfind
    have htest := List.find?_some hfind
    have htext : found.1.render = e.1.render := eq_of_beq htest
    -- The text belongs to one element only, and the element has one reason.
    have hkey : found.1 = e.1 := (h _ (List.mem_map_of_mem hfound)).render_inj
      (h _ (List.mem_map_of_mem he)) htext
    have hvalue := (OrderedMap.get?_eq_some_iff _ _ _).2 hfound
    rw [hkey, (OrderedMap.get?_eq_some_iff _ _ _).2 he] at hvalue
    exact congrArg some (Prod.ext hkey (Option.some.inj hvalue).symm)

theorem mem_excludedTexts {text : String} :
    text ∈ c.excludedTexts ↔ ∃ e ∈ c.exclusions.entries, e.1.render = text := by
  rw [excludedTexts, ← NameSet.mem_def, NameSet.mem_ofList, OrderedMap.keys, List.map_map,
    List.mem_map]
  rfl

/-- The rows of the table are the entries of the report, in the order of their texts. -/
theorem perm_sortedExclusions (h : ∀ k ∈ c.exclusions.keys, k.WellNamed) :
    c.sortedExclusions.Perm c.exclusions.entries ∧
      (c.sortedExclusions.map fun e => e.1.render).Pairwise (· < ·) := by
  have hmem : ∀ e, e ∈ c.sortedExclusions ↔ e ∈ c.exclusions.entries := by
    intro e
    rw [sortedExclusions, List.mem_filterMap]
    constructor
    · rintro ⟨text, -, hfind⟩
      exact List.mem_of_find?_eq_some hfind
    · intro he
      exact ⟨_, mem_excludedTexts.2 ⟨e, he, rfl⟩, find?_entry h he⟩
  have htexts : c.sortedExclusions.map (fun e => e.1.render) = c.excludedTexts := by
    have hall : ∀ text ∈ c.excludedTexts, ((c.exclusions.entries.find? fun entry =>
        entry.1.render == text).map fun e => e.1.render) = some text := by
      intro text htext
      obtain ⟨e, he, rfl⟩ := mem_excludedTexts.1 htext
      rw [find?_entry h he, Option.map_some]
    rw [sortedExclusions, List.map_filterMap, List.filterMap_congr hall, List.filterMap_some]
  have hascending : (c.sortedExclusions.map fun e => e.1.render).Pairwise (· < ·) := by
    rw [htexts]
    exact NameSet.ascending _
  refine ⟨?_, hascending⟩
  -- Neither list repeats an entry, so the same members are enough.
  have hsorted : c.sortedExclusions.Nodup := by
    refine hascending.of_map _ ?_
    rintro a b hlt rfl
    exact String.lt_irrefl _ hlt
  have hentries : c.exclusions.entries.Nodup := by
    refine List.Pairwise.of_map Prod.fst ?_ c.exclusions.nodup_keys
    rintro a b hne rfl
    exact hne rfl
  exact (List.perm_ext_iff_of_nodup hsorted hentries).2 hmem

end Compilation

/-- The row for a hidden element with a given text: the type that the text starts with, and why the
    element is hidden, with its tags and owners in ascending order. -/
def exclusionRow (contractName : Option String) (text : String) (reason : Reason)
    (tags owners : NameSet) : List (Option String) :=
  [contractName, some text, some (Coordinate.typeNameOfText text), some reason.label,
   some (",".intercalate tags.names), some (",".intercalate owners.names)]

/-- What a report shows by subgraphs, in its table and in its list of types, given the owners of
    elements and the tags that the contract was compiled by. -/
structure Compilation.ViewsAgree (c : Compilation) (o : Ownership) (tags : TagMap) : Prop where
  /-- By its text every hidden element has the owners that it is counted for. -/
  owners : ∀ k ∈ c.exclusions.keys, o.ownersOfText k.render = .ok (o.owners k)
  /-- Each subgraph is counted once. -/
  distinct : (c.hiddenBySubgraph.map Prod.fst).Pairwise (· < ·)
  /-- It is counted with the number of hidden elements that it owns, if it owns any. -/
  counts : ∀ subgraph n, (subgraph, n) ∈ c.hiddenBySubgraph ↔
    n = (c.exclusions.keys.countP fun k => decide (subgraph ∈ o.owners k)) ∧ 0 < n
  /-- The counts add up to the number of owners of all hidden elements. -/
  total : (c.hiddenBySubgraph.map Prod.snd).sum
    = (c.exclusions.keys.map fun k => (o.owners k).names.length).sum
  /-- The table has a row for each entry of the report, in strictly ascending order of texts. -/
  rows : ∃ entries : List (Coordinate × Reason), entries.Perm c.exclusions.entries ∧
    (entries.map fun e => e.1.render).Pairwise (· < ·) ∧
    (c.table (some o)).rows = entries.map fun e =>
      exclusionRow c.contractName e.1.render e.2 (tags.of e.1) (o.owners e.1)
  /-- The list of types holds the texts of the report that have no dot. -/
  types : c.hiddenTypes.Pairwise (· < ·) ∧ ∀ text, text ∈ c.hiddenTypes ↔
    text ∈ c.exclusions.keys.map Coordinate.render ∧ Coordinate.isTypeText text = true

namespace Document

variable {d : Document}

/-- In a contract of a document whose names can be parts of coordinates, compiled with owners, the
    counts by subgraph, the table and the list of hidden types show the report alike. -/
theorem compile_views_agree (d : Document) (options : CompileOptions) (o : Ownership)
    {c : Compilation} (hnames : d.WellNamed) (howners : options.ownership = some o)
    (h : d.compile options = .ok (.compiled c)) :
    c.ViewsAgree o (options.tags.getD (d.filterTags options.config)) := by
  obtain ⟨-, kept, cascade, -, hrun, rfl⟩ := compile_eq_compiled_iff.1 h
  have hnamed := fun k hk => hnames.report hrun (c := k) hk
  have hcounts : (d.assembled options kept cascade).hiddenBySubgraph
      = countBySubgraph o (d.assembled options kept cascade).exclusions.keys := by
    simp only [assembled, howners]
  have htags : ∀ k ∈ (d.assembled options kept cascade).exclusions.keys,
      (d.assembled options kept cascade).tags.of k
        = (options.tags.getD (d.filterTags options.config)).of k := fun k hk =>
    of_tagsAmong _ hk
  generalize d.assembled options kept cascade = c at hnamed hcounts htags ⊢
  obtain ⟨hperm, hascending⟩ := c.perm_sortedExclusions hnamed
  refine ⟨fun k hk => o.ownersOfText_render (hnamed k hk), ?_, ?_, ?_,
    ⟨c.sortedExclusions, hperm, hascending, ?_⟩, NameSet.ascending _, ?_⟩
  · rw [hcounts]
    exact ascending_countBySubgraph o _
  · intro subgraph n
    rw [hcounts]
    exact mem_countBySubgraph_iff
  · rw [hcounts]
    exact sum_countBySubgraph o _
  · refine List.map_congr_left fun e he => ?_
    have hkey : e.1 ∈ c.exclusions.keys := List.mem_map_of_mem (hperm.mem_iff.1 he)
    rw [exclusionRow, (hnamed _ hkey).typeNameOfText_render, htags _ hkey]
  · intro text
    rw [Compilation.hiddenTypes, ← NameSet.mem_def, NameSet.mem_ofList, List.mem_map, List.mem_map]
    constructor
    · rintro ⟨k, hk, rfl⟩
      obtain ⟨hkey, htype⟩ := List.mem_filter.1 hk
      exact ⟨⟨k, hkey, rfl⟩, by rwa [(hnamed k hkey).isTypeText_render]⟩
    · rintro ⟨⟨k, hkey, rfl⟩, htype⟩
      rw [(hnamed k hkey).isTypeText_render] at htype
      exact ⟨k, List.mem_filter.2 ⟨hkey, htype⟩, rfl⟩

end Document

/-! ## A shop with several owners -/

/-- A shop whose search has an internal argument, with a ledger behind an internal field. -/
def searchShop : Document := ⟨[
  .type ⟨none, "Query", [], .object []
    [⟨none, "search", [⟨none, "text", .named "String", none, []⟩,
        ⟨none, "trace", .named "Int", none, [tagUse "audit", tagUse "internal"]⟩],
      .named "String", []⟩,
     ⟨none, "ledger", [], .named "Ledger", [tagUse "internal"]⟩]⟩,
  .type ⟨none, "Ledger", [], .object [] [⟨none, "sum", [], .named "Int", []⟩]⟩]⟩

/-- Its owners as given by hand: of the arguments only one is listed. -/
def searchOwners : Ownership := .ofList [
  ("Query.search", .ofList ["shops", "index"]),
  ("Query.search.text", .ofList ["texts"]),
  ("Query.ledger", .ofList ["shops", "ledgers"])]

/-- The arguments for a contract of the shop without what is internal. -/
def withSearchOwners : CompileOptions := { withoutInternal with ownership := some searchOwners }

/-- The internal argument counts for the owners of its field, and the ledger, which the cascade
    hides, for nobody. -/
theorem searchShop_views : searchShop.WellNamed ∧ withSearchOwners.ownership = some searchOwners ∧
    ∃ c, searchShop.compile withSearchOwners = .ok (.compiled c) ∧
      c.exclusions.keys = [.argument "Query" "search" "trace", .member "Query" "ledger",
        .type "Ledger"] ∧
      c.hiddenBySubgraph = [("index", 1), ("ledgers", 1), ("shops", 2)] ∧
      (c.table (some searchOwners)).rows = [
        [none, some "Ledger", some "Ledger", some "unreachable", some "", some ""],
        [none, some "Query.ledger", some "Query", some "excluded_tag", some "internal",
          some "ledgers,shops"],
        [none, some "Query.search.trace", some "Query", some "excluded_tag",
          some "audit,internal", some "index,shops"]] ∧
      c.hiddenTypes = ["Ledger"] ∧
      c.ViewsAgree searchOwners (searchShop.filterTags withSearchOwners.config) := by
  have hnames : searchShop.WellNamed := by decide +kernel
  refine ⟨hnames, rfl, ?_⟩
  obtain ⟨c, hc, hkeys, hcounts, hrows, htypes⟩ : ∃ c,
      searchShop.compile withSearchOwners = .ok (.compiled c) ∧
      c.exclusions.keys = [.argument "Query" "search" "trace", .member "Query" "ledger",
        .type "Ledger"] ∧
      c.hiddenBySubgraph = [("index", 1), ("ledgers", 1), ("shops", 2)] ∧
      (c.table (some searchOwners)).rows = [
        [none, some "Ledger", some "Ledger", some "unreachable", some "", some ""],
        [none, some "Query.ledger", some "Query", some "excluded_tag", some "internal",
          some "ledgers,shops"],
        [none, some "Query.search.trace", some "Query", some "excluded_tag",
          some "audit,internal", some "index,shops"]] ∧
      c.hiddenTypes = ["Ledger"] :=
    ⟨_, rfl, by decide +kernel, by decide +kernel, by decide +kernel, by decide +kernel⟩
  exact ⟨c, hc, hkeys, hcounts, hrows, htypes,
    Document.compile_views_agree searchShop withSearchOwners searchOwners hnames rfl hc⟩

end SchemaView
