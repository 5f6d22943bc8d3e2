import Mathlib.Data.List.Forall2
import SchemaView.Proofs.CompileCorrect

/-!
# The report is the difference to the source

A contract has the definitions of its source, one by one, and at the end a definition of the marker
if one had to be added. Corresponding definitions differ in directives only: at every site the
contract has the directives of the source or these and the marker. Which members and arguments have
gained the marker can be read off the report, wherever they are declared, and which types have
gained it as well, as far as their definitions count.

## Key results

- `definitionMarked_markDefinition`: what marking does to a definition
- `definitions_marked`: what marking does to the definitions of a document
- `carries_compiled_iff`: the types that gain the marker are those of the report
- `compile_report_exact`: the report is the difference between source and contract
-/

namespace SchemaView

open Sdl

/-! ## Definitions without directives -/

def bareInputValue (v : InputValue) : InputValue := { v with directives := [] }

def bareField (f : Field) : Field :=
  { f with arguments := f.arguments.map bareInputValue, directives := [] }

def bareEnumValue (v : EnumValue) : EnumValue := { v with directives := [] }

/-- The members of a type without their directives. -/
def bareBody : TypeBody → TypeBody
  | .scalar => .scalar
  | .object interfaces fields => .object interfaces (fields.map bareField)
  | .interface interfaces fields => .interface interfaces (fields.map bareField)
  | .union members => .union members
  | .enum values => .enum (values.map bareEnumValue)
  | .inputObject fields => .inputObject (fields.map bareInputValue)

/-- A declaration of a type without the directives of its sites. -/
def bareDeclaration (t : TypeDecl) : TypeDecl :=
  { t with directives := [], body := bareBody t.body }

/-- A definition without the directives of its sites. Other definitions have no sites. -/
def bareDefinition : Definition → Definition
  | .type t => .type (bareDeclaration t)
  | .typeExtension t => .typeExtension (bareDeclaration t)
  | other => other

/-- The sites of a definition. -/
def definitionSites : Definition → List Site
  | .type t | .typeExtension t => sitesOf t
  | _ => []

/-! ## What a report says about a definition -/

/-- A site before and after compiling: directives may gain one marker, and members and arguments
    gain it exactly if they are in the report. -/
structure SiteMarked (marker : Name) (report : List Coordinate) (before after : Site) : Prop where
  coordinate : after.coordinate = before.coordinate
  directives : after.directives = before.directives
    ∨ after.directives = before.directives ++ [⟨marker, []⟩]
  reported : before.coordinate.isType = false → (carries marker after.directives = true ↔
    carries marker before.directives = true ∨ before.coordinate ∈ report)

/-- A definition before and after compiling: nothing but the directives of its sites differs. -/
structure DefinitionMarked (marker : Name) (report : List Coordinate)
    (before after : Definition) : Prop where
  bare : bareDefinition after = bareDefinition before
  sites : List.Forall₂ (SiteMarked marker report) (definitionSites before) (definitionSites after)

variable {marker : Name} {hit : Coordinate → Bool} {report : List Coordinate}

/-- Marking changes nothing but the directives of sites. -/
theorem bareDefinition_markDefinition (x : Definition) :
    bareDefinition (markDefinition marker hit x) = bareDefinition x := by
  -- Without directives, marked members are members; a field has arguments besides.
  have hfield : ∀ type, bareField ∘ markField marker hit type = bareField := by
    intro type
    funext f
    simp only [Function.comp_apply, bareField, markField, List.map_map]
    rfl
  have hbody : ∀ type b, bareBody (markBody marker hit type b) = bareBody b := by
    intro type b
    cases b with
    | scalar | union _ => rfl
    | object interfaces fields => simp only [markBody, bareBody, List.map_map, hfield]
    | interface interfaces fields => simp only [markBody, bareBody, List.map_map, hfield]
    | enum values =>
      simp only [markBody, bareBody, List.map_map]
      rfl
    | inputObject fields =>
      simp only [markBody, bareBody, List.map_map]
      rfl
  cases x <;>
    simp only [markDefinition, bareDefinition, bareDeclaration, markDeclaration, hbody]

/-- The sites of a marked definition are the marked sites. -/
theorem definitionSites_markDefinition (x : Definition) :
    definitionSites (markDefinition marker hit x)
      = (definitionSites x).map (Site.mark marker hit) := by
  cases x <;> simp [markDefinition, definitionSites, sitesOf_markDeclaration]

/-- Where members and arguments are marked by a report, definitions are marked by it. -/
theorem definitionMarked_markDefinition
    (h : ∀ c, c.isType = false → (hit c = true ↔ c ∈ report)) (x : Definition) :
    DefinitionMarked marker report x (markDefinition marker hit x) where
  bare := bareDefinition_markDefinition x
  sites := by
    rw [definitionSites_markDefinition, List.forall₂_map_right_iff, List.forall₂_same]
    intro s _
    -- At each site, whatever else is in the definition.
    refine ⟨rfl, markIf_eq_or marker _ _, fun hs => ?_⟩
    show carries marker (markIf (hit s.coordinate) marker s.directives) = true ↔ _
    rw [carries_markIf, Bool.or_eq_true, h s.coordinate hs]

namespace Document

variable {d : Document}

/-- Where members and arguments are marked by a report, the definitions of a document are marked by
    it one by one, and a definition of the marker may follow. -/
theorem definitions_marked (config : Config)
    (h : ∀ c, c.isType = false → (hit c = true ↔ c ∈ report)) :
    ∃ marked tail,
      ((d.mark config.marker hit).ensureMarkerFor config).definitions = marked ++ tail ∧
      List.Forall₂ (DefinitionMarked config.marker report) d.definitions marked ∧
      (tail = [] ∨ tail = [markerDefinition config.marker]) := by
  have hmarked : List.Forall₂ (DefinitionMarked config.marker report) d.definitions
      (d.mark config.marker hit).definitions := by
    rw [mark, List.forall₂_map_right_iff, List.forall₂_same]
    exact fun x _ => definitionMarked_markDefinition h x
  rcases definitions_ensureMarkerFor (d.mark config.marker hit) config with hsame | hadded
  · exact ⟨_, [], by rw [hsame, List.append_nil], hmarked, Or.inl rfl⟩
  · exact ⟨_, _, hadded, hmarked, Or.inr rfl⟩

/-! ## Documents that use the marker -/

theorem uses_iff (name : Name) : d.uses name = true ↔
    ∃ t ∈ d.typeDeclarations, ∃ s ∈ sitesOf t, carries name s.directives = true := by
  simp only [uses, List.any_eq_true]

/-- A document with a marked site uses the marker. -/
theorem uses_mark {c : Coordinate} (hc : hit c = true)
    (h : ∃ t ∈ d.typeDeclarations, ∃ s ∈ sitesOf t, s.coordinate = c) :
    (d.mark marker hit).uses marker = true := by
  obtain ⟨t, ht, s, hs, rfl⟩ := h
  rw [uses_iff, typeDeclarations_mark]
  refine ⟨_, List.mem_map.2 ⟨t, ht, rfl⟩, s.mark marker hit, ?_, ?_⟩
  · rw [sitesOf_markDeclaration]
    exact List.mem_map.2 ⟨s, hs, rfl⟩
  · show carries marker (markIf (hit s.coordinate) marker s.directives) = true
    rw [carries_markIf, hc, Bool.or_true]

/-- A document in which the definition of a type has the marker uses the marker. -/
theorem uses_of_carries {n : Name} {t : TypeDecl} (ht : d.definedTypes.get? n = some t)
    (hcarries : carries marker t.directives = true) : d.uses marker = true := by
  rw [uses_iff]
  refine ⟨t, ?_, _, List.mem_cons_self, hcarries⟩
  have hvalue : t ∈ d.definedTypes.values := (OrderedMap.mem_values_iff _ _).2 ⟨n, ht⟩
  exact List.mem_append_left _ hvalue

/-- Where the marker is used and its definition wanted, it is defined. -/
theorem mem_definedDirectives_ensureMarkerFor {config : Config} (h : d.uses config.marker = true)
    (hensure : config.ensureMarker = true) :
    config.marker ∈ (d.ensureMarkerFor config).definedDirectives.keys := by
  rw [ensureMarkerFor, if_pos (by rw [hensure, h]; rfl)]
  exact d.mem_definedDirectives_ensureMarker config.marker

/-! ## Reports of compilations -/

variable {selected : Exclusions} {marked : List Name}

/-- Of members and arguments, what is marked is what the report of a compilation has. -/
theorem hiddenTest_iff_mem_report (htypes : TypesOnly hit) {c : Coordinate}
    (hc : c.isType = false) :
    hiddenTest selected.keys hit c = true ↔ c ∈ (withCascaded selected marked).keys := by
  have hmember : ∀ n, c ≠ .type n := by
    rintro n rfl
    simp [Coordinate.isType] at hc
  rw [mem_keys_withCascaded, hiddenTest_iff, htypes.eq_false hc]
  simp [hmember]

/-- The definition of a type has the marker in the contract if it has it in the source or the report
    has the type. -/
theorem carries_compiled_iff (hcascade : ∀ n t,
      (d.markAt marker selected.keys).definedTypes.get? n = some t →
      ((carries marker t.directives = true ∨ hit (.type n) = true) ↔
        (carries marker t.directives = true ∨ n ∈ marked)))
    {n : Name} {t : TypeDecl} (ht : d.definedTypes.get? n = some t) :
    carries marker (markDeclaration marker (hiddenTest selected.keys hit) t).directives = true
      ↔ carries marker t.directives = true
        ∨ Coordinate.type n ∈ (withCascaded selected marked).keys := by
  -- What the cascade does to the definition, which the rule may have marked before.
  have h := hcascade n _ (by rw [markAt, get?_definedTypes_mark, ht, Option.map_some])
  have hname := name_of_get?_definedTypes ht
  simp only [markDeclaration_directives, carries_markIf, hname, Bool.or_eq_true, decide_eq_true_eq,
    or_assoc] at h
  simp only [markDeclaration_directives, carries_markIf, hname, Bool.or_eq_true, hiddenTest_iff,
    mem_keys_withCascaded, Coordinate.type.injEq, exists_eq_right', h]

/-- Where the report of a compilation has anything, the marker is used: at what the rule hides,
    which is a site of the source, or on the definition of a type that the cascade marks. -/
theorem uses_of_mem_report {kept : NameSet} {options : CompileOptions}
    (hcascade : ∀ n t, (d.tagMarked options kept).definedTypes.get? n = some t →
      ((carries options.config.marker t.directives = true ∨ hit (.type n) = true) ↔
        (carries options.config.marker t.directives = true ∨ n ∈ marked)))
    (hdefined : ∀ n ∈ marked, n ∈ (d.tagMarked options kept).definedTypes.keys) {c : Coordinate}
    (hc : c ∈ (withCascaded (d.selection options kept) marked).keys) :
    (d.mark options.config.marker (hiddenTest (d.selection options kept).keys hit)).uses
      options.config.marker = true := by
  rcases (mem_keys_withCascaded _ _ _).1 hc with hselected | ⟨n, hn, rfl⟩
  · exact uses_mark (hiddenTest_iff.2 (Or.inl hselected))
      (Filter.exists_site_of_mem_exclusions hselected)
  · have hkey := hdefined n hn
    rw [tagMarked, markAt, keys_definedTypes_mark] at hkey
    obtain ⟨t, ht⟩ := (OrderedMap.mem_keys_iff _ _).1 hkey
    have hget := get?_definedTypes_mark options.config.marker
      (hiddenTest (d.selection options kept).keys hit) d n
    rw [ht, Option.map_some] at hget
    exact uses_of_carries hget ((carries_compiled_iff hcascade ht).2 (Or.inr hc))

/-- The report of a compilation is exactly the difference between source and contract: the
    definitions are those of the source, position by position, with the marker added as the report
    says, and at the end a definition of the marker if need be; the same types are defined, and of
    these the reported ones gain the marker; and where something is reported and a definition of the
    marker wanted, it is defined. -/
theorem compile_report_exact (d : Document) (options : CompileOptions) {c : Compilation}
    (h : d.compile options = .ok (.compiled c)) :
    (∃ marked tail, c.document.definitions = marked ++ tail ∧
      List.Forall₂ (DefinitionMarked options.config.marker c.exclusions.keys) d.definitions marked ∧
      (tail = [] ∨ tail = [markerDefinition options.config.marker])) ∧
    c.document.definedTypes.keys = d.definedTypes.keys ∧
    (∀ type t u, d.definedTypes.get? type = some t → c.document.definedTypes.get? type = some u →
      (carries options.config.marker u.directives = true ↔
        carries options.config.marker t.directives = true
          ∨ Coordinate.type type ∈ c.exclusions.keys)) ∧
    (c.exclusions.keys ≠ [] → options.config.ensureMarker = true →
      options.config.marker ∈ c.document.definedDirectives.keys) := by
  obtain ⟨-, kept, result, -, hrun, rfl⟩ := compile_eq_compiled_iff.1 h
  obtain ⟨hit, htypes, hdocument, hdefined, hcascade⟩ := cascadeFor_mark hrun
  have hcompiled := compiled_document hdocument
  have hreport : (d.assembled options kept result).exclusions
      = withCascaded (d.selection options kept) result.marked := rfl
  rw [hcompiled, hreport]
  refine ⟨?_, ?_, ?_, ?_⟩
  · exact definitions_marked options.config fun _ hc => hiddenTest_iff_mem_report htypes hc
  · rw [definedTypes_ensureMarkerFor, keys_definedTypes_mark]
  · intro type t u ht hu
    rw [definedTypes_ensureMarkerFor, get?_definedTypes_mark, ht, Option.map_some] at hu
    cases hu
    exact carries_compiled_iff hcascade ht
  · intro hne hensure
    obtain ⟨k, hk⟩ := List.exists_mem_of_ne_nil _ hne
    exact mem_definedDirectives_ensureMarkerFor (uses_of_mem_report hcascade hdefined hk) hensure

end Document

/-! ## A shop with repeated declarations -/

/-- A shop whose ledger is defined twice and mentioned by a field that is marked already. The
    extension declares a field again, this time with a tag. -/
def repeatedShop : Document := ⟨[
  .type ⟨none, "Query", [], .object [] [⟨none, "shop", [], .named "Shop", []⟩]⟩,
  .type ⟨none, "Shop", [], .object []
    [⟨none, "name", [⟨none, "raw", .named "Boolean", none, [tagUse "internal"]⟩],
      .named "String", []⟩,
     ⟨none, "ledger", [], .named "Ledger", [⟨defaultMarker, []⟩]⟩]⟩,
  .typeExtension ⟨none, "Shop", [], .object []
    [⟨none, "name", [], .named "String", [tagUse "internal"]⟩,
     ⟨none, "cost", [], .named "Int", [tagUse "internal"]⟩]⟩,
  .type ⟨none, "Ledger", [], .object [] [⟨none, "total", [], .named "Int", []⟩]⟩,
  .type ⟨none, "Ledger", [], .object [] [⟨none, "sum", [], .named "Int", []⟩]⟩]⟩

/-- The declarations of the shop gain the marker as its report says: an argument and two fields by
    their tags, one of them in both of its declarations, and the ledger because only the marked
    field mentions it. -/
theorem repeatedShop_report : ∃ c,
    repeatedShop.compile withoutInternal = .ok (.compiled c) ∧
    c.exclusions.keys = [.argument "Shop" "name" "raw", .member "Shop" "name",
      .member "Shop" "cost", .type "Ledger"] ∧
    (∃ marked tail, c.document.definitions = marked ++ tail ∧
      List.Forall₂ (DefinitionMarked defaultMarker c.exclusions.keys) repeatedShop.definitions
        marked ∧
      (tail = [] ∨ tail = [markerDefinition defaultMarker])) ∧
    defaultMarker ∈ c.document.definedDirectives.keys := by
  obtain ⟨hdefinitions, -, -, hdefined⟩ :=
    Document.compile_report_exact repeatedShop withoutInternal rfl
  refine ⟨_, rfl, by decide +kernel, hdefinitions, hdefined (by decide +kernel) rfl⟩

end SchemaView
