import SchemaView.Proofs.RelevantTags
import SchemaView.Request

/-!
# Rules that are sent and received

A rule is written to callers under the keys under which requests have one, so what is written can be
sent again. The rule that comes back need not be the same: a choice that comes to no tags at all is
written as no choice. But it hides the same elements for the same reasons, has the same thing wrong
with it and is written in the same way, and contracts are compiled by it to the same result.

## Key results

- `Payload.ofFields_fields`: a rule is written under the keys under which it is read
- `Rule.alike_received`: the tags of a rule come back
- `Rule.Alike.compile`: rules with the same tags compile to the same contracts
- `Rule.received_like_sent`: whatever is asked of a rule has the same answer for the one that comes
  back
- `Rule.received_eq_iff`: when the rule itself comes back
-/

namespace SchemaView

/-! ## Chosen tags -/

/-- The tags of a choice are those that are listed in it and not empty. -/
theorem mem_chosenTags {tags : Option (List String)} {tag : String} :
    tag ∈ (chosenTags tags).getD .empty ↔ tag ≠ "" ∧ tag ∈ tags.getD [] := by
  cases tags with
  | none => simp [chosenTags]
  | some tags => simp [chosenTags, and_comm]

/-- Whether a choice without tags was made at all does not show in the list. -/
theorem tagList?_eq (tags : Option NameSet) :
    tagList? tags =
      if (tags.getD .empty).isEmpty then none else some (tags.getD .empty).names := by
  cases tags <;> rfl

/-- Choosing the listed tags of a choice is choosing these tags again. -/
theorem getD_chosenTags_tagList? (tags : Option (List String)) :
    (chosenTags (tagList? (chosenTags tags))).getD .empty = (chosenTags tags).getD .empty := by
  have hlisted : ∀ s : NameSet, (if s.isEmpty then none else some s.names).getD [] = s.names := by
    intro s
    split
    · rename_i hempty
      exact (List.isEmpty_iff.1 hempty).symm
    · rfl
  apply NameSet.ext
  intro tag
  rw [mem_chosenTags, tagList?_eq, hlisted, ← NameSet.mem_def, and_iff_right_iff_imp]
  -- No chosen tag is empty, so none is dropped the second time.
  exact fun htag => (mem_chosenTags.1 htag).1

/-- A choice comes back as it was made unless it is one of no tags. -/
theorem chosenTags_tagList?_eq_iff (tags : Option (List String)) :
    chosenTags (tagList? (chosenTags tags)) = chosenTags tags ↔
      chosenTags tags ≠ some .empty := by
  have hback := getD_chosenTags_tagList? tags
  cases hchosen : chosenTags tags with
  | none => simp [tagList?, chosenTags]
  | some s =>
    rw [hchosen, Option.getD_some] at hback
    constructor
    · rintro heq hnone
      rw [hnone] at heq
      cases heq
    · intro hsome
      cases hempty : s.isEmpty with
      | true =>
        have hnone : s = .empty := NameSet.ext fun tag => by
          rw [NameSet.mem_def, List.isEmpty_iff.1 hempty]
          rfl
        exact absurd (congrArg some hnone) hsome
      | false =>
        have hlist : tagList? (some s) = some s.names := by simp [tagList?, hempty]
        rw [hlist] at hback ⊢
        exact congrArg some hback

/-! ## Rules with the same tags -/

/-- Two rules with the same tags. Whether a choice without tags was made at all does not count. -/
structure Rule.Alike (r s : Rule) : Prop where
  included : r.included = s.included
  excluded : r.excluded = s.excluded
  removeUnreachable : r.removeUnreachable = s.removeUnreachable

/-- The same result with another rule on record. -/
def CompileResult.withRule (rule : Rule) : CompileResult → CompileResult
  | rejected verdict => rejected verdict
  | compiled c => compiled { c with rule := rule }

namespace Rule.Alike

variable {r s : Rule}

/-- They hide the same elements for the same reasons. -/
theorem reason? (h : r.Alike s) (tags : NameSet) (applyInclude : Bool) :
    r.reason? tags applyInclude = s.reason? tags applyInclude := by
  rw [Rule.reason?, Rule.reason?, h.included, h.excluded]

/-- The same is wrong with them. -/
theorem check (h : r.Alike s) : r.check = s.check := by
  rw [Rule.check, Rule.check, h.included, h.excluded]

/-- They are written in the same way. -/
theorem fields (h : r.Alike s) : r.fields = s.fields := by
  have hincluded : r.includeTags.getD .empty = s.includeTags.getD .empty := h.included
  have hexcluded : r.excludeTags.getD .empty = s.excludeTags.getD .empty := h.excluded
  simp only [Rule.fields, summary, tagList?_eq, hincluded, hexcluded, h.removeUnreachable]

/-- They select the same elements of a document. -/
theorem selection (h : r.Alike s) (d : Document) (options : CompileOptions) (keep : NameSet) :
    d.selection { options with rule := r } keep = d.selection { options with rule := s } keep := by
  have hjudges : (Filter.mk r (options.tags.getD (d.filterTags options.config))
      options.ownership).JudgesAs
        (Filter.mk s (options.tags.getD (d.filterTags options.config)) options.ownership) :=
    ⟨rfl, fun c applyInclude => h.reason? _ applyInclude⟩
  exact hjudges.exclusions d keep

/-- Contracts are compiled by them to the same result, but for the rule on record. -/
theorem compile (h : r.Alike s) (d : Document) (options : CompileOptions) :
    d.compile { options with rule := r }
      = (d.compile { options with rule := s }).map (CompileResult.withRule r) := by
  have hvalid : d.compileValid { options with rule := r }
      = (d.compileValid { options with rule := s }).map fun c => { c with rule := r } := by
    refine Document.compileValid_of_selection rfl h.removeUnreachable (h.selection d options) ?_
    intro keep cascade
    simp only [Document.assembled, h.selection]
  simp only [Document.compile, h.check]
  cases s.check with
  | nil =>
    simp only [hvalid]
    cases d.compileValid { options with rule := s } <;> rfl
  | cons violation violations => rfl

end Rule.Alike

/-! ## Sending and receiving -/

/-- A rule is written under the keys under which it is read. -/
theorem Payload.ofFields_fields (s : RuleSummary) : Payload.ofFields s.fields = s.payload := by
  have hread : ∀ tags? : Option (List String),
      (SentValue.ofTags? tags?).tags.list? = tags? := by
    intro tags?
    cases tags? <;> rfl
  simp [Payload.ofFields, RuleSummary.fields, RuleSummary.payload, OrderedMap.ofList,
    OrderedMap.insertMany, OrderedMap.get?_insert, hread, SentValue.isTrue]

/-- The rule that comes back, from what was written. -/
theorem Request.rule_ofFields_fields (r : Rule) : (Request.ofFields r.fields).rule =
    .ofChoices (tagList? r.includeTags) (tagList? r.excludeTags) r.removeUnreachable := by
  rw [Request.ofFields, Rule.fields, Payload.ofFields_fields]
  rfl

namespace Rule

/-- The tags of a rule come back. -/
theorem alike_received (includeTags excludeTags : TagChoice) (removeUnreachable : Bool) :
    (Request.ofFields (ofTags includeTags excludeTags removeUnreachable).fields).rule.Alike
      (ofTags includeTags excludeTags removeUnreachable) := by
  rw [Request.rule_ofFields_fields]
  exact ⟨getD_chosenTags_tagList? _, getD_chosenTags_tagList? _, rfl⟩

/-- The rule itself comes back unless a choice was made that comes to no tags. -/
theorem received_eq_iff (includeTags excludeTags : TagChoice) (removeUnreachable : Bool) :
    let r := ofTags includeTags excludeTags removeUnreachable
    (Request.ofFields r.fields).rule = r ↔
      r.includeTags ≠ some .empty ∧ r.excludeTags ≠ some .empty := by
  intro r
  have hinclude : chosenTags (tagList? r.includeTags) = r.includeTags
      ↔ r.includeTags ≠ some .empty := chosenTags_tagList?_eq_iff includeTags.list?
  have hexclude : chosenTags (tagList? r.excludeTags) = r.excludeTags
      ↔ r.excludeTags ≠ some .empty := chosenTags_tagList?_eq_iff excludeTags.list?
  rw [Request.rule_ofFields_fields, ← hinclude, ← hexclude]
  constructor
  · intro h
    exact ⟨congrArg Rule.includeTags h, congrArg Rule.excludeTags h⟩
  · rintro ⟨hi, he⟩
    rw [ofChoices, hi, he]

/-- A list of nothing but empty tags is a choice of no tags, and comes back as no choice. -/
example : let r := ofTags (.many ["", ""]) (.one "internal") true
    r.includeTags.isSome = true ∧ (Request.ofFields r.fields).rule.includeTags.isSome = false := by
  decide

/-- However the tags of a rule are chosen, the rule that comes back when it is sent hides an element
    with given tags for the same reason, has the same thing wrong with it, is written in the same
    way and says the same about unreachable types. Every document is compiled by it with the same
    outcome: the same failure, the same verdict on the rule, or contracts with the same exclusions
    and the same schema, of which nothing differs but the rule on record. -/
theorem received_like_sent (includeTags excludeTags : TagChoice) (removeUnreachable : Bool) :
    let r := ofTags includeTags excludeTags removeUnreachable
    let received := (Request.ofFields r.fields).rule
    (∀ tags applyInclude, received.reason? tags applyInclude = r.reason? tags applyInclude) ∧
    received.check = r.check ∧ received.fields = r.fields ∧
    received.removeUnreachable = r.removeUnreachable ∧
    ∀ (d : Document) (options : CompileOptions), d.compile { options with rule := received }
      = (d.compile { options with rule := r }).map (CompileResult.withRule received) := by
  intro r received
  have h : received.Alike r := alike_received includeTags excludeTags removeUnreachable
  exact ⟨h.reason?, h.check, h.fields, h.removeUnreachable, h.compile⟩

end Rule

end SchemaView
