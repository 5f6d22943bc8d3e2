import SchemaView.Proofs.CompileFailures
import SchemaView.Proofs.StricterRules

/-!
# Only the tags that a rule names count

Elements may carry any number of tags. A rule names a few of them, and what it hides depends on
these few alone: two maps of tags that agree, element by element, on the tags of the rule lead to
the same contract, whatever else they hold and whichever elements they mention at all. The
agreement is carried from one set of tags through members, types and documents to the selection;
behind that no stage of a compilation reads tags, except to report them.

## Key results

- `Rule.reason?_of_agreesOn`: one set of tags
- `JudgesAs.exclusions`: the selection of a document, with reasons and order
- `compile_of_agreesOn`: the outcome of a compilation
-/

namespace SchemaView

open Sdl

/-! ## Agreement on the tags of a rule -/

/-- Whether a rule names a tag. -/
def Rule.Names (r : Rule) (tag : String) : Prop := tag ∈ r.included ∨ tag ∈ r.excluded

/-- Two sets of tags of which a rule sees the same part. -/
def Rule.AgreesOn (r : Rule) (tags tags' : NameSet) : Prop :=
  ∀ tag, r.Names tag → (tag ∈ tags ↔ tag ∈ tags')

/-- Two maps of tags of which a rule sees the same part at every element. An element that a map
    does not mention has no tags. -/
def TagMap.AgreeFor (t u : TagMap) (r : Rule) : Prop := ∀ c, r.AgreesOn (t.of c) (u.of c)

/-- Sets that have the same members of a third one share a member with it alike. -/
theorem NameSet.meets_congr {s t u : NameSet} (h : ∀ x ∈ u, x ∈ s ↔ x ∈ t) :
    s.meets u = t.meets u := by
  rw [Bool.eq_iff_iff, NameSet.meets_iff, NameSet.meets_iff]
  constructor
  · rintro ⟨x, hx, hu⟩
    exact ⟨x, (h x hu).1 hx, hu⟩
  · rintro ⟨x, hx, hu⟩
    exact ⟨x, (h x hu).2 hx, hu⟩

/-- Of tags a rule sees nothing but those that it names. -/
theorem Rule.reason?_of_agreesOn {r : Rule} {tags tags' : NameSet} (h : r.AgreesOn tags tags')
    (applyInclude : Bool) : r.reason? tags applyInclude = r.reason? tags' applyInclude := by
  have hexcluded : tags.meets r.excluded = tags'.meets r.excluded :=
    NameSet.meets_congr fun tag htag => h tag (Or.inr htag)
  have hincluded : tags.meets r.included = tags'.meets r.included :=
    NameSet.meets_congr fun tag htag => h tag (Or.inl htag)
  rw [Rule.reason?, Rule.reason?, hexcluded, hincluded]

/-! ## Selections -/

namespace Filter

/-- Two filters that judge every element alike by its own tags, and have the same owners. -/
structure JudgesAs (f g : Filter) : Prop where
  ownership : f.ownership = g.ownership
  reason : ∀ c applyInclude,
    f.rule.reason? (f.tags.of c) applyInclude = g.rule.reason? (g.tags.of c) applyInclude

variable {f g : Filter}

/-- The rules are applied to the same members. -/
theorem JudgesAs.judgedMembers (h : f.JudgesAs g) (name : Name) (type : NamedType) :
    f.judgedMembers name type = g.judgedMembers name type := by
  simp only [Filter.judgedMembers, h.ownership]

/-- Of the elements in a list the same ones are hidden by their own tags, for the same reasons. -/
theorem JudgesAs.hidden (h : f.JudgesAs g) (elements : List Coordinate) :
    f.hidden elements = g.hidden elements := by
  simp only [Filter.hidden, Filter.reason?, h.reason]

/-- A type is hidden for the same reason, by its own tags or because of its members. -/
theorem JudgesAs.typeReason? (h : f.JudgesAs g) (name : Name) (type : NamedType) :
    f.typeReason? name type = g.typeReason? name type := by
  have hmember : ∀ c, f.reason? c = g.reason? c := fun c => h.reason c true
  simp only [Filter.typeReason?, h.judgedMembers, hmember]
  rw [h.reason]

/-- The same elements of a document are hidden, for the same reasons and in the same order. -/
theorem JudgesAs.exclusions (h : f.JudgesAs g) (d : Document) (skip : NameSet) :
    f.exclusions d skip = g.exclusions d skip := by
  simp only [Filter.exclusions, Filter.typeExclusions, h.judgedMembers, h.ownership, h.hidden,
    h.typeReason?]

/-- A rule judges elements alike by two maps that agree on its tags. -/
theorem judgesAs_of_agreesOn {r : Rule} {t u : TagMap} {ownership : Option Ownership}
    (h : t.AgreeFor u r) : (Filter.mk r t ownership).JudgesAs (Filter.mk r u ownership) :=
  ⟨rfl, fun c applyInclude => Rule.reason?_of_agreesOn (h c) applyInclude⟩

end Filter

/-! ## Compilations -/

/-- The same arguments with tags that are given and not read from the schema. -/
def CompileOptions.taggedBy (options : CompileOptions) (tags : TagMap) : CompileOptions :=
  { options with tags := some tags }

/-- The same contract with its tags reported from another map. -/
def Compilation.retagged (c : Compilation) (tags : TagMap) : Compilation :=
  { c with tags := tagsAmong tags c.exclusions.keys }

namespace Document

variable {d : Document} {options : CompileOptions} {t u : TagMap} {kept : NameSet}

theorem selection_of_agreesOn (h : t.AgreeFor u options.rule) :
    d.selection (options.taggedBy t) kept = d.selection (options.taggedBy u) kept :=
  (Filter.judgesAs_of_agreesOn h).exclusions d kept

/-- Compiling by other tags that agree on those of the rule is reporting other tags. -/
theorem compileValid_of_agreesOn (h : t.AgreeFor u options.rule) :
    d.compileValid (options.taggedBy u)
      = (d.compileValid (options.taggedBy t)).map fun c => c.retagged u := by
  refine compileValid_of_selection rfl rfl (fun kept => (selection_of_agreesOn h).symm) ?_
  intro kept cascade
  simp only [assembled, selection_of_agreesOn h, Compilation.retagged]
  rfl

/-- With a valid rule, a compilation whose tags are given has the same outcome for any two maps that
    agree on the tags of the rule: both name the same unknown type, or both compile a contract, with
    the same elements hidden for the same reasons in the same order, the same schema, the same
    cascade and the same counts. Nothing but the reported tags tells the two contracts apart. -/
theorem compile_of_agreesOn (d : Document) (options : CompileOptions) (t u : TagMap)
    (hvalid : options.rule.check = []) (h : t.AgreeFor u options.rule) :
    (∃ name referrer,
      d.compile (options.taggedBy t) = .error (.unknownType name referrer) ∧
      d.compile (options.taggedBy u) = .error (.unknownType name referrer)) ∨
    ∃ c c', d.compile (options.taggedBy t) = .ok (.compiled c) ∧
      d.compile (options.taggedBy u) = .ok (.compiled c') ∧
      c'.exclusions.entries = c.exclusions.entries ∧ c'.document = c.document ∧
      c'.cascaded = c.cascaded ∧ c'.hiddenBySubgraph = c.hiddenBySubgraph ∧
      c' = { c with tags := c'.tags } := by
  have hrule : ∀ tags, (options.taggedBy tags).rule.check = [] := fun _ => hvalid
  have hcompile : ∀ tags, d.compile (options.taggedBy tags)
      = (d.compileValid (options.taggedBy tags)).map .compiled := by
    intro tags
    simp only [compile, hrule]
    rfl
  cases hrun : d.compileValid (options.taggedBy t) with
  | ok c =>
    refine Or.inr ⟨c, c.retagged u, ?_, ?_, rfl, rfl, rfl, rfl, rfl⟩
    · rw [hcompile, hrun]
      rfl
    · rw [hcompile, compileValid_of_agreesOn h, hrun]
      rfl
  | error e =>
    have hfirst : d.compile (options.taggedBy t) = .error e := by
      rw [hcompile, hrun]
      rfl
    have hsecond : d.compile (options.taggedBy u) = .error e := by
      rw [hcompile, compileValid_of_agreesOn h, hrun]
      rfl
    obtain ⟨name, referrer, rfl, -⟩ := d.failsOnlyOnUnknown_compile _ e hfirst
    exact Or.inl ⟨name, referrer, hfirst, hsecond⟩

end Document

/-! ## A shop whose tags are told in two ways -/

/-- The tags of the shop with a ledger, as far as its rule asks for them. -/
def ledgerTags : TagMap := .ofList [(.member "Query" "ledger", .ofList ["internal"])]

/-- Tags of the same shop with more on every element, also on one that the shop does not have. -/
def ledgerTagsWithNotes : TagMap := .ofList [
  (.type "Query", .ofList ["draft"]),
  (.member "Query" "shop", .ofList ["public", "stable"]),
  (.member "Query" "ledger", .ofList ["beta", "internal", "public"]),
  (.type "Ledger", .ofList ["beta"]),
  (.member "Invoice" "sum", .empty)]

/-- The maps agree on the one tag of the rule. -/
theorem ledgerTags_agree : ledgerTags.AgreeFor ledgerTagsWithNotes withHandmadeOwners.rule := by
  have hnames : ∀ tag, withHandmadeOwners.rule.Names tag → tag = "internal" := by
    rintro tag (htag | htag)
    · exact absurd htag (NameSet.not_mem_empty tag)
    · exact List.mem_singleton.1 htag
  intro c tag htag
  obtain rfl := hnames tag htag
  simp only [TagMap.of, ledgerTags, ledgerTagsWithNotes, OrderedMap.ofList, OrderedMap.insertMany,
    List.foldl_cons, List.foldl_nil, OrderedMap.get?_insert, OrderedMap.get?_empty]
  repeat' split
  all_goals simp_all

/-- The field is hidden from its owner and the cascade marks the ledger, whichever of the two maps
    tells the tags. -/
theorem ledgerShop_told_twice : withHandmadeOwners.rule.check = [] ∧
    ∃ c c', ledgerShop.compile (withHandmadeOwners.taggedBy ledgerTags) = .ok (.compiled c) ∧
      ledgerShop.compile (withHandmadeOwners.taggedBy ledgerTagsWithNotes) = .ok (.compiled c') ∧
      c.exclusions.entries = [(.member "Query" "ledger", .excludedTag),
        (.type "Ledger", .unreachable)] ∧
      c'.exclusions.entries = c.exclusions.entries ∧ c'.document = c.document ∧
      c'.cascaded = c.cascaded ∧ c'.hiddenBySubgraph = c.hiddenBySubgraph ∧
      c.hiddenBySubgraph = [("ledgers", 1)] ∧
      c.tags.size = 1 ∧ c'.tags.size = 2 := by
  have hvalid : withHandmadeOwners.rule.check = [] := by decide +kernel
  refine ⟨hvalid, ?_⟩
  obtain ⟨first, hfirst, hreport, hcounts, hsize⟩ : ∃ first,
      ledgerShop.compile (withHandmadeOwners.taggedBy ledgerTags) = .ok (.compiled first) ∧
      first.exclusions.entries = [(.member "Query" "ledger", .excludedTag),
        (.type "Ledger", .unreachable)] ∧
      first.hiddenBySubgraph = [("ledgers", 1)] ∧ first.tags.size = 1 :=
    ⟨_, rfl, by decide +kernel, by decide +kernel, by decide +kernel⟩
  obtain ⟨second, hsecond, hsize'⟩ : ∃ second,
      ledgerShop.compile (withHandmadeOwners.taggedBy ledgerTagsWithNotes)
        = .ok (.compiled second) ∧ second.tags.size = 2 :=
    ⟨_, rfl, by decide +kernel⟩
  rcases Document.compile_of_agreesOn ledgerShop withHandmadeOwners ledgerTags ledgerTagsWithNotes
    hvalid ledgerTags_agree with ⟨_, _, herror, -⟩ | ⟨c, c', hc, hc', hexclusions, hdocument,
      hcascaded, hhidden, -⟩
  · rw [hfirst] at herror
    cases herror
  · rw [hfirst] at hc
    rw [hsecond] at hc'
    cases hc
    cases hc'
    exact ⟨first, second, hfirst, hsecond, hreport, hexclusions, hdocument, hcascaded, hhidden,
      hcounts, hsize, hsize'⟩

end SchemaView
