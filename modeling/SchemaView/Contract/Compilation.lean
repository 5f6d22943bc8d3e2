import SchemaView.Config
import SchemaView.Contract.Cascade
import SchemaView.Contract.Exclusion
import SchemaView.Text.Digest

/-!
# Compiling a contract

A contract schema is a schema in which everything that a rule hides is marked. Compiling selects
what the rule hides, marks it, marks what nothing visible reaches any more, and adds a definition
of the marker where one is needed. Protected types, among them everything that the arguments of
directives use, are neither hidden nor marked.
-/

namespace SchemaView

open Sdl

namespace Document

/-- The types that arguments of directives use, with everything that these refer to. -/
def directiveTypes (d : Document) : Except Error NameSet :=
  let used := d.definedDirectives.values.flatMap fun t =>
    t.arguments.map fun a => a.type.baseName
  let defined := (NameSet.ofList used).names.filter d.definedTypes.contains
  if defined.isEmpty then .ok .empty
  else do
    let g ← d.typeGraph none
    g.walk defined

/-- The types that are never hidden. -/
def protectedTypes (d : Document) (config : Config) : Except Error NameSet := do
  pure (config.protectedTypes.union (← d.directiveTypes))

end Document

/-- A compiled contract: the schema, and what was hidden and why. -/
structure Compilation where
  contractName : Option String
  document : Document
  /-- The printed schema. -/
  sdl : String
  rule : Rule
  exclusions : Exclusions
  /-- The types that the cascade marked. -/
  cascaded : List Name
  passes : Nat
  /-- How many hidden elements each subgraph owns. -/
  hiddenBySubgraph : List (String × Nat)
  /-- The tags of the hidden elements. -/
  tags : TagMap

/-- What a contract is compiled by, besides the schema. -/
structure CompileOptions where
  rule : Rule
  config : Config
  ownership : Option Ownership
  /-- The tags of elements, if they are not to be read from the schema. -/
  tags : Option TagMap
  contractName : Option String

/-- A rule that is not valid, or a compiled contract. -/
inductive CompileResult where
  | rejected (verdict : Verdict)
  | compiled (compilation : Compilation)

/-- How many elements each subgraph owns, for the subgraphs that own any. -/
def countBySubgraph (o : Ownership) (elements : List Coordinate) : List (String × Nat) :=
  let owners := elements.map o.owners
  (owners.foldl NameSet.union .empty).names.map fun subgraph =>
    (subgraph, owners.countP fun set => decide (subgraph ∈ set))

/-- Adds the types that a cascade marked, unless they were hidden before. -/
def withCascaded (exclusions : Exclusions) (types : List Name) : Exclusions :=
  types.foldl (fun e type => e.insertNew (.type type) .unreachable) exclusions

/-- The tags of the elements of a map that are among those given. -/
def tagsAmong (tags : TagMap) (elements : List Coordinate) : TagMap :=
  .ofList (elements.filterMap fun c => (tags.get? c).map fun set => (c, set))

namespace Document

/-- The tags by which a document is filtered. -/
def filterTags (d : Document) (config : Config) : TagMap :=
  d.tags (some (d.tagDirective config.tagDirective))

/-- Marks what nothing visible reaches, if the rule asks for it. -/
def cascadeFor (d : Document) (options : CompileOptions) (keep : NameSet) :
    Except Error CascadeResult :=
  if options.rule.removeUnreachable then
    d.cascade options.config.marker keep options.config.maxPasses
  else .ok ⟨d, [], 0⟩

/-- Adds a definition of the marker if the document uses it and the configuration asks for it. -/
def ensureMarkerFor (d : Document) (config : Config) : Document :=
  if config.ensureMarker && d.uses config.marker then d.ensureMarker config.marker else d

/-- Compiles a contract with a valid rule. -/
def compileValid (d : Document) (options : CompileOptions) : Except Error Compilation := do
  let config := options.config
  let tags := options.tags.getD (d.filterTags config)
  let keep ← d.protectedTypes config
  -- First what the rule hides, then what nothing visible reaches any more.
  let selected := (Filter.mk options.rule tags options.ownership).exclusions d keep
  let cascade ← (d.markAt config.marker selected.keys).cascadeFor options keep
  let exclusions := withCascaded selected cascade.marked
  let document := cascade.document.ensureMarkerFor config
  pure {
    contractName := options.contractName
    document := document
    sdl := document.render
    rule := options.rule
    exclusions := exclusions
    cascaded := cascade.marked
    passes := cascade.passes
    hiddenBySubgraph :=
      match options.ownership with
      | some o => countBySubgraph o exclusions.keys
      | none => []
    tags := tagsAmong tags exclusions.keys }

/-- Compiles a contract, unless its rule is not valid. -/
def compile (d : Document) (options : CompileOptions) : Except Error CompileResult :=
  match options.rule.check with
  | [] => do pure (.compiled (← d.compileValid options))
  | violations => .ok (.rejected violations)

end Document

namespace Compilation

/-- The hidden elements in ascending order. -/
def excludedTexts (c : Compilation) : List String :=
  (NameSet.ofList (c.exclusions.keys.map Coordinate.render)).names

/-- The hidden types in ascending order. -/
def hiddenTypes (c : Compilation) : List String :=
  (NameSet.ofList ((c.exclusions.keys.filter Coordinate.isType).map Coordinate.render)).names

/-- The fingerprint of the printed schema. -/
def fingerprint (c : Compilation) : String := Text.Digest.fingerprint [c.sdl] 16

end Compilation

/-- The version of the layout of reports. -/
def reportLayout : String := "contracts_v1"

end SchemaView
