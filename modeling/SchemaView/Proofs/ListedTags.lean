import SchemaView.CommandLine.Run
import SchemaView.Proofs.DeclaredTags

/-!
# Listed tags and tags to filter by

One command lists the tags of a schema, another one compiles a contract by its tags. Both take the
name of the tag directive from the schema if that links the specification of tags. Otherwise the
command that lists tags takes the usual name, and the one that compiles takes the name that the
environment sets. The two commands then go by different uses of directives, and the tags that they
find are the same only as far as these happen to give the same tags.

## Key results

- `mem_all_tagsBy_iff`: the tags of a map that is read from a document
- `run_forM_print`, `execute_tags`: what the command that lists tags prints
- `compile_eq_compileBy`: by which map of tags the other command compiles
- `filterDirective_eq_iff`: when the two commands go by one directive
- `all_tags_eq_all_filterTags_iff`, `listed_eq_filtered_iff`: when the two commands go by the same
  tags
-/

namespace SchemaView

open Sdl

namespace Document

/-- An element that a type declares, in its definition or in an extension of it, has a tag by a use
    of the directive. -/
def GivesTag (d : Document) (directive : Name) (tag : String) : Prop :=
  ∃ t ∈ d.types.values, ∃ u ∈ t.declarations, ∃ s ∈ sitesOf u, tag ∈ tagsIn directive s.directives

instance (d : Document) (directive : Name) (tag : String) : Decidable (d.GivesTag directive tag) :=
  inferInstanceAs (Decidable (∃ t ∈ d.types.values, ∃ u ∈ t.declarations, ∃ s ∈ sitesOf u,
    tag ∈ tagsIn directive s.directives))

/-- The schema links a specification of the tag directive. -/
def LinksTags (d : Document) : Prop :=
  ∃ declaration ∈ d.schemaDeclarations, ∃ use ∈ usesOf "link" declaration.directives,
    linksTags use = true

instance (d : Document) : Decidable d.LinksTags :=
  inferInstanceAs (Decidable (∃ declaration ∈ d.schemaDeclarations,
    ∃ use ∈ usesOf "link" declaration.directives, linksTags use = true))

end Document

/-! ## The tags of a map -/

theorem TagMap.mem_all_iff {tags : TagMap} {tag : String} :
    tag ∈ tags.all ↔ ∃ c, tag ∈ tags.of c := by
  simp only [TagMap.all, NameSet.mem_foldl_union, NameSet.not_mem_empty, false_or,
    OrderedMap.mem_values_iff, TagMap.of]
  constructor
  · rintro ⟨set, ⟨c, hc⟩, htag⟩
    exact ⟨c, by simpa [hc] using htag⟩
  · rintro ⟨c, htag⟩
    cases hc : tags.get? c with
    | none => simp [hc] at htag
    | some set => exact ⟨set, ⟨c, hc⟩, by simpa [hc] using htag⟩

namespace Document

variable {d : Document} {tag : String}

/-- The tags of the map that is read by a directive are those that its uses give. -/
theorem mem_all_tagsBy_iff {name : Name} :
    tag ∈ (d.tagsBy name).all ↔ d.GivesTag name tag := by
  rw [TagMap.mem_all_iff]
  simp only [mem_of_tagsBy]
  constructor
  · rintro ⟨_, t, ht, u, hu, s, hs, -, htag⟩
    exact ⟨t, ht, u, hu, s, hs, htag⟩
  · rintro ⟨t, ht, u, hu, s, hs, htag⟩
    exact ⟨s.coordinate, t, ht, u, hu, s, hs, rfl, htag⟩

/-- Two directives lead to the same tags exactly if their uses give the same ones. -/
theorem all_tagsBy_eq_iff {name other : Name} : (d.tagsBy name).all = (d.tagsBy other).all ↔
    ∀ tag, d.GivesTag name tag ↔ d.GivesTag other tag := by
  simp only [← mem_all_tagsBy_iff]
  exact ⟨fun h tag => by rw [h], NameSet.ext⟩

/-! ## The name of the tag directive -/

/-- A schema that links the specification of tags has one name for the tag directive, which is not
    empty. -/
theorem tagDirective_of_linksTags (h : d.LinksTags) :
    ∃ name, name.isEmpty = false ∧ ∀ default, d.tagDirective default = name := by
  obtain ⟨declaration, hdeclaration, use, huse, hlinks⟩ := h
  cases hfind : (d.schemaDeclarations.flatMap fun s => usesOf "link" s.directives).find?
      linksTags with
  | none =>
    have hnone := List.find?_eq_none.1 hfind use
      (List.mem_flatMap.2 ⟨declaration, hdeclaration, huse⟩)
    exact absurd hlinks hnone
  | some link =>
    refine ⟨linkedName link, ?_, fun default => by rw [tagDirective, hfind]⟩
    unfold linkedName
    split
    · split
      · rfl
      · simp_all
    · rfl

/-- Every other schema leaves the name to its reader. -/
theorem tagDirective_of_not_linksTags (h : ¬ d.LinksTags) (default : Name) :
    d.tagDirective default = default := by
  have hnone : (d.schemaDeclarations.flatMap fun s => usesOf "link" s.directives).find?
      linksTags = none := by
    refine List.find?_eq_none.2 fun use huse hlinks => ?_
    obtain ⟨declaration, hdeclaration, huse⟩ := List.mem_flatMap.1 huse
    exact h ⟨declaration, hdeclaration, use, huse, hlinks⟩
  rw [tagDirective, hnone]

/-- Tags are listed and filtered by one directive exactly if the schema links the specification or
    the configuration names the usual directive or none. -/
theorem filterDirective_eq_iff {config : Config} :
    d.tagDirective defaultTagDirective = d.filterDirective config ↔
      d.LinksTags ∨ config.tagDirective = "" ∨ config.tagDirective = defaultTagDirective := by
  by_cases hlinks : d.LinksTags
  · obtain ⟨name, hname, htag⟩ := tagDirective_of_linksTags hlinks
    simp [filterDirective, htag, hname, hlinks]
  · simp only [filterDirective, tagDirective_of_not_linksTags hlinks, hlinks, false_or]
    by_cases hempty : config.tagDirective = ""
    · simp [hempty]
    · simp only [String.isEmpty_iff, hempty, if_false, false_or]
      exact eq_comm

/-- The tags that are listed are those to filter by exactly if the directives are the same or their
    uses give the same tags. -/
theorem all_tags_eq_all_filterTags_iff (d : Document) (config : Config) :
    (d.tags none).all = (d.filterTags config).all ↔ d.LinksTags ∨ config.tagDirective = "" ∨
      ∀ tag, d.GivesTag defaultTagDirective tag ↔ d.GivesTag config.tagDirective tag := by
  have hall : (d.tags none).all = (d.filterTags config).all ↔ ∀ tag,
      d.GivesTag (d.tagDirective defaultTagDirective) tag ↔
        d.GivesTag (d.filterDirective config) tag := all_tagsBy_eq_iff
  rw [hall]
  by_cases hsame : d.tagDirective defaultTagDirective = d.filterDirective config
  · refine iff_of_true (fun tag => by rw [hsame]) ?_
    rcases filterDirective_eq_iff.1 hsame with hlinks | hempty | hdefault
    · exact Or.inl hlinks
    · exact Or.inr (Or.inl hempty)
    · exact Or.inr (Or.inr fun tag => by rw [hdefault])
  · -- Then the one goes by the usual directive, and the other by that of the configuration.
    rw [filterDirective_eq_iff, not_or, not_or] at hsame
    obtain ⟨hlinks, hempty, -⟩ := hsame
    have htags := tagDirective_of_not_linksTags hlinks
    simp [filterDirective, htags, hlinks, hempty]

/-- Where no tags are given, a contract is compiled by the tags that the document is filtered by. -/
theorem compile_eq_compile_filterTags (d : Document) (options : CompileOptions)
    (h : options.tags = none) :
    d.compile options = d.compile { options with tags := some (d.filterTags options.config) } := by
  simp only [compile, compileValid, cascadeFor, h, Option.getD_none, Option.getD_some]

end Document

/-! ## The commands -/

namespace CommandLine

theorem run_print_bind (line : String) (next : Unit → Run Unit) (o : Output) :
    (Run.print line >>= next).run.run o
      = (next ()).run.run { o with stdout := o.stdout ++ line ++ "\n" } := rfl

/-- Printing lines puts them behind what was printed, each with a line break. -/
theorem run_forM_print (lines : List String) (o : Output) :
    (lines.forM Run.print).run.run o
      = (.ok (), { o with stdout := o.stdout ++ String.join (lines.map (· ++ "\n")) }) := by
  induction lines generalizing o with
  | nil =>
    have hrun : (List.forM [] Run.print).run.run o = (.ok (), o) := rfl
    rw [hrun]
    simp
  | cons line lines ih =>
    rw [List.forM, run_print_bind, ih, List.map_cons, String.join_cons]
    simp only [String.append_assoc]

/-- The command that lists tags prints those of the map that is read by the usual directive or the
    one that the schema links, and nothing else. -/
theorem execute_tags {fileText : String} {d : Document}
    (hread : Document.parse (String.ofList (Text.normalizeBreaks fileText.toList)) = .ok d)
    (settings : Variables) :
    execute fileText settings .tags
      = .ok { Output.nothing with
          stdout := String.join ((d.tags none).all.names.map (· ++ "\n")) } := by
  have hlift : (Run.lift ((Except.ok d).mapError Error.unreadable) >>= fun d => Run.listTags d)
      = Run.listTags d := rfl
  have haction : Run.action (String.ofList (Text.normalizeBreaks fileText.toList)) settings .tags
      = (d.tags none).all.names.forM Run.print := by
    unfold Run.action
    rw [hread]
    exact hlift
  -- Printing never fails, so the failures that the command reports do not arise.
  unfold execute
  dsimp only
  rw [haction, run_forM_print]
  simp [Output.nothing]

/-- Reports what compiling answers. -/
def Run.reportResult (d : Document) (config : Config) (r : CompileRequest) :
    CompileResult → Run Unit
  | .rejected verdict => do
    verdict.forM fun v => printError (v.code ++ " (" ++ v.field.label ++ "): " ++ v.message)
    exit 2
  | .compiled c => reportCompilation d config r c

/-- Compiles a contract as `Run.compile` does, where the tags of elements are given. -/
def Run.compileBy (tags : TagMap) (d : Document) (settings : Variables) (r : CompileRequest) :
    Run Unit := do
  (Config.notices settings).forM (warn "config")
  let config ← lift (Config.ofVariables settings)
  let owners ← if r.withOwnership then some <$> ownership d else pure none
  let options : CompileOptions := {
    rule := .ofChoices r.includeTags r.excludeTags (!r.keepUnreachable)
    config := config
    ownership := owners
    tags := some tags
    contractName := r.name }
  reportResult d config r (← lift (d.compile options))

/-- The command that compiles a contract goes by the map that is read by the directive of its
    configuration. -/
theorem compile_eq_compileBy {settings : Variables} {config : Config}
    (h : Config.ofVariables settings = .ok config) (d : Document) (r : CompileRequest) :
    Run.compile d settings r = Run.compileBy (d.filterTags config) d settings r := by
  have hconfig (next : Config → Run Unit) : (Run.lift (.ok config) >>= next) = next config := rfl
  -- Whoever the owners are that the command finds, it gives no tags when it compiles.
  have hsame (owners : Option Ownership) := d.compile_eq_compile_filterTags {
    rule := .ofChoices r.includeTags r.excludeTags (!r.keepUnreachable)
    config := config
    ownership := owners
    tags := none
    contractName := r.name } rfl
  simp only [Run.compile, Run.compileBy, h, hconfig, hsame]
  rfl

/-- The configuration takes the name of the tag directive as the environment sets it. -/
theorem tagDirective_ofVariables {settings : Variables} {config : Config}
    (h : Config.ofVariables settings = .ok config) :
    config.tagDirective = (settings.get? Config.tagVariable).getD defaultTagDirective := by
  unfold Config.ofVariables Config.create at h
  split at h
  · cases h
    rfl
  · cases h

theorem tagDirective_eq_empty_iff {settings : Variables} {config : Config}
    (h : Config.ofVariables settings = .ok config) :
    config.tagDirective = "" ↔ settings.get? Config.tagVariable = some "" := by
  rw [tagDirective_ofVariables h]
  cases settings.get? Config.tagVariable <;> simp [defaultTagDirective]

/-- The tags that are listed for a schema are those that a contract is compiled by exactly if the
    schema links the specification of tags, or the environment sets an empty name, or uses of the
    directive that it names give the same tags as uses of the usual one. -/
theorem listed_eq_filtered_iff {fileText : String} {d : Document} {settings : Variables}
    {config : Config}
    (hread : Document.parse (String.ofList (Text.normalizeBreaks fileText.toList)) = .ok d)
    (hconfig : Config.ofVariables settings = .ok config) :
    ∃ listed filtered : NameSet,
      execute fileText settings .tags = .ok { Output.nothing with
        stdout := String.join (listed.names.map (· ++ "\n")) } ∧
      (∀ tag, tag ∈ listed ↔ d.GivesTag (d.tagDirective defaultTagDirective) tag) ∧
      filtered = (d.filterTags config).all ∧
      (∀ request, Run.compile d settings request
        = Run.compileBy (d.filterTags config) d settings request) ∧
      (∀ tag, tag ∈ filtered ↔ d.GivesTag (d.filterDirective config) tag) ∧
      (listed = filtered ↔ d.LinksTags ∨ settings.get? Config.tagVariable = some "" ∨
        ∀ tag, d.GivesTag defaultTagDirective tag ↔
          d.GivesTag ((settings.get? Config.tagVariable).getD defaultTagDirective) tag) := by
  refine ⟨_, _, execute_tags hread settings, fun tag => Document.mem_all_tagsBy_iff, rfl,
    compile_eq_compileBy hconfig d, fun tag => Document.mem_all_tagsBy_iff, ?_⟩
  rw [← tagDirective_ofVariables hconfig, ← tagDirective_eq_empty_iff hconfig]
  exact Document.all_tags_eq_all_filterTags_iff d config

end CommandLine

/-! ## A shop with a tag -/

/-- The environment that sets the name of the tag directive. -/
def tagSettings (name : Name) : Variables := OrderedMap.empty.insert Config.tagVariable name

/-- The configuration in that environment. -/
def tagConfig (name : Name) : Config := { Config.default with tagDirective := name }

/-- A shop of which a field has a tag by a directive. -/
def shopTaggedBy (directive : Name) : Document := ⟨[
  .type ⟨none, "Query", [], .object [] [⟨none, "shop", [], .named "String",
    [⟨directive, [⟨"name", .string ⟨"internal", false⟩⟩]⟩]⟩]⟩]⟩

/-- The text of that shop. -/
def shopTextTaggedBy (directive : Name) : String :=
  "type Query \x7b shop: String @" ++ directive ++ "(name: \"internal\") \x7d"

open CommandLine in
/-- Where the environment sets an empty name, both commands go by the usual directive. -/
theorem shop_lists_tags :
    Document.parse (String.ofList (Text.normalizeBreaks (shopTextTaggedBy "tag").toList))
      = .ok (shopTaggedBy "tag") ∧
    Config.ofVariables (tagSettings "") = .ok (tagConfig "") ∧
    ∃ listed : NameSet, "internal" ∈ listed ∧
      execute (shopTextTaggedBy "tag") (tagSettings "") .tags = .ok { Output.nothing with
        stdout := String.join (listed.names.map (· ++ "\n")) } ∧
      ((shopTaggedBy "tag").filterTags (tagConfig "")).all = listed := by
  have hread : Document.parse (String.ofList (Text.normalizeBreaks (shopTextTaggedBy "tag").toList))
      = .ok (shopTaggedBy "tag") := rfl
  have hconfig : Config.ofVariables (tagSettings "") = .ok (tagConfig "") := rfl
  obtain ⟨listed, filtered, hexecute, hlisted, hfiltered, -, -, hsame⟩ :=
    listed_eq_filtered_iff hread hconfig
  have hinternal : "internal" ∈ listed := (hlisted "internal").2 (by decide +kernel)
  have heq : listed = filtered := hsame.2 (Or.inr (Or.inl rfl))
  exact ⟨hread, hconfig, listed, hinternal, hexecute, (heq.trans hfiltered).symm⟩

open CommandLine in
/-- Where the schema links nothing and the environment sets another name, tags by the directive of
    that name are not listed, but each contract is compiled by them. -/
theorem labelledShop_lists_no_tags :
    Document.parse (String.ofList (Text.normalizeBreaks (shopTextTaggedBy "label").toList))
      = .ok (shopTaggedBy "label") ∧
    Config.ofVariables (tagSettings "label") = .ok (tagConfig "label") ∧
    ¬ (shopTaggedBy "label").LinksTags ∧
    execute (shopTextTaggedBy "label") (tagSettings "label") .tags = .ok Output.nothing ∧
    ((shopTaggedBy "label").filterTags (tagConfig "label")).all.names = ["internal"] ∧
    ∀ request, Run.compile (shopTaggedBy "label") (tagSettings "label") request
      = Run.compileBy ((shopTaggedBy "label").filterTags (tagConfig "label"))
          (shopTaggedBy "label") (tagSettings "label") request :=
  ⟨rfl, rfl, by decide +kernel, rfl, rfl, fun request => compile_eq_compileBy rfl _ request⟩

end SchemaView
