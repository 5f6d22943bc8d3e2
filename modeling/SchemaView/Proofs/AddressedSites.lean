import SchemaView.Proofs.CoordinateText
import SchemaView.Proofs.ReportCorrect

/-!
# Marking by texts marks what they address

A text addresses the elements that have the coordinate that it writes: all declarations of a type,
a member wherever it is declared, an argument of every such field. Marking by texts changes nothing
else. This is said here without the marking: a definition is its bare form together with its sites,
so a result is pinned down by what stays bare and by what happens at each site.

## Key results

- `definition_eq_of_bare_of_sites`: a definition is given by its bare form and its sites
- `definitionsAddressed_iff`: only marking what is addressed gives the definitions that are asked for
- `mem_of_mapM_parse`: what a list of texts addresses
- `markTexts_eq_error_iff`: the first text that is no coordinate is reported
- `markTexts_exact`: marking by texts as a whole
-/

namespace SchemaView

open Sdl

/-! ## Definitions by their sites -/

/-- Lists are equal if their elements agree in a part and in a run of further parts, of which the
    first one determines the length of the run. -/
theorem eq_of_map_eq_of_flatMap_eq {α β γ : Type} {part : α → β} {run : α → List γ}
    (hlength : ∀ x y, part x = part y → (run x).length = (run y).length)
    (heq : ∀ x y, part x = part y → run x = run y → x = y) {xs ys : List α}
    (hparts : xs.map part = ys.map part) (hruns : xs.flatMap run = ys.flatMap run) : xs = ys := by
  induction xs generalizing ys with
  | nil =>
    cases ys with
    | nil => rfl
    | cons y ys => cases hparts
  | cons x xs ih =>
    cases ys with
    | nil => cases hparts
    | cons y ys =>
      rw [List.map_cons, List.map_cons, List.cons.injEq] at hparts
      rw [List.flatMap_cons, List.flatMap_cons] at hruns
      -- The runs of the two first elements end at the same place.
      obtain ⟨hfirst, hrest⟩ := List.append_inj hruns (hlength x y hparts.1)
      rw [heq x y hparts.1 hfirst, ih hparts.2 hrest]

variable {type : Name}

/-- An argument or input field is given by its bare form and its directives. -/
theorem inputValue_eq_of_bare {v w : InputValue} (hbare : bareInputValue v = bareInputValue w)
    (hdirectives : v.directives = w.directives) : v = w := by
  cases v
  cases w
  simp_all [bareInputValue]

/-- A field is given by its bare form and the sites of it and its arguments. -/
theorem field_eq_of_bare {f g : Field} (hbare : bareField f = bareField g)
    (hsites : (Member.ofField f).sites type = (Member.ofField g).sites type) : f = g := by
  obtain ⟨description, name, arguments, fieldType, directives⟩ := f
  obtain ⟨description', name', arguments', fieldType', directives'⟩ := g
  simp only [bareField, Field.mk.injEq] at hbare
  obtain ⟨rfl, rfl, harguments, rfl, -⟩ := hbare
  simp only [Member.sites, Member.ofField, List.cons.injEq, Site.mk.injEq, true_and] at hsites
  obtain ⟨rfl, hsites⟩ := hsites
  -- The directives are what the sites of the arguments hold besides coordinates.
  have hdirectives : arguments.flatMap (fun a => [a.directives])
      = arguments'.flatMap (fun a => [a.directives]) := by
    have hmap := congrArg (List.map Site.directives) hsites
    simpa [← List.map_eq_flatMap, Function.comp_def] using hmap
  have heq : arguments = arguments' :=
    eq_of_map_eq_of_flatMap_eq (fun _ _ _ => rfl)
      (fun _ _ hbare hsame => inputValue_eq_of_bare hbare (List.singleton_inj.1 hsame))
      harguments hdirectives
  rw [heq]

/-- The fields of a type are given by their bare forms and their sites. -/
theorem fields_eq_of_bare {fs gs : List Field} (hbare : fs.map bareField = gs.map bareField)
    (hsites : (fs.map Member.ofField).flatMap (Member.sites type)
      = (gs.map Member.ofField).flatMap (Member.sites type)) : fs = gs := by
  rw [List.flatMap_map, List.flatMap_map] at hsites
  refine eq_of_map_eq_of_flatMap_eq (fun f g hfg => ?_) (fun f g => field_eq_of_bare) hbare hsites
  have harguments := congrArg (fun h : Field => h.arguments.length) hfg
  simpa [Member.sites, Member.ofField, bareField] using harguments

/-- What a declaration declares is given by its bare form and the sites of its members. -/
theorem body_eq_of_bare {b c : TypeBody} (hbare : bareBody b = bareBody c)
    (hsites : (membersOf b).flatMap (Member.sites type)
      = (membersOf c).flatMap (Member.sites type)) : b = c := by
  cases b <;> cases c <;> simp only [bareBody, reduceCtorEq, TypeBody.object.injEq,
    TypeBody.interface.injEq, TypeBody.union.injEq, TypeBody.enum.injEq,
    TypeBody.inputObject.injEq] at hbare
  case scalar.scalar => rfl
  case union.union members others => rw [hbare]
  case object.object => rw [hbare.1, fields_eq_of_bare hbare.2 hsites]
  case interface.interface => rw [hbare.1, fields_eq_of_bare hbare.2 hsites]
  case enum.enum values others =>
    rw [membersOf, membersOf, List.flatMap_map, List.flatMap_map] at hsites
    congr 1
    refine eq_of_map_eq_of_flatMap_eq (fun _ _ _ => rfl) (fun v w hvw hsite => ?_) hbare hsites
    cases v
    cases w
    simp_all [bareEnumValue, Member.sites, Member.ofEnumValue]
  case inputObject.inputObject fields others =>
    rw [membersOf, membersOf, List.flatMap_map, List.flatMap_map] at hsites
    congr 1
    refine eq_of_map_eq_of_flatMap_eq (fun _ _ _ => rfl) (fun v w hvw hsite => ?_) hbare hsites
    simp only [Member.sites, Member.ofInputValue, List.map_nil, List.cons.injEq,
      Site.mk.injEq] at hsite
    exact inputValue_eq_of_bare hvw hsite.1.2

theorem declaration_eq_of_bare {t u : TypeDecl} (hbare : bareDeclaration t = bareDeclaration u)
    (hsites : sitesOf t = sitesOf u) : t = u := by
  obtain ⟨description, name, directives, body⟩ := t
  obtain ⟨description', name', directives', body'⟩ := u
  simp only [bareDeclaration, TypeDecl.mk.injEq] at hbare
  obtain ⟨rfl, rfl, -, hbody⟩ := hbare
  simp only [sitesOf, List.cons.injEq, Site.mk.injEq, true_and] at hsites
  rw [hsites.1, body_eq_of_bare hbody hsites.2]

/-- A definition is given by its bare form and its sites. -/
theorem definition_eq_of_bare_of_sites {x y : Definition}
    (hbare : bareDefinition x = bareDefinition y)
    (hsites : definitionSites x = definitionSites y) : x = y := by
  cases x <;> cases y <;> simp only [bareDefinition, reduceCtorEq, Definition.type.injEq,
    Definition.typeExtension.injEq] at hbare
  case type.type => rw [declaration_eq_of_bare hbare hsites]
  case typeExtension.typeExtension => rw [declaration_eq_of_bare hbare hsites]
  all_goals exact hbare

/-! ## What texts address -/

/-- One of the texts is the text of the coordinate, whose names can be parts of one. -/
def Addresses (texts : List String) (c : Coordinate) : Prop := c.WellNamed ∧ c.render ∈ texts

instance (texts : List String) (c : Coordinate) : Decidable (Addresses texts c) :=
  inferInstanceAs (Decidable (_ ∧ _))

variable {marker : Name} {texts : List String} {c : Coordinate}

/-- The coordinates that are read from texts are those that the texts address. -/
theorem mem_of_mapM_parse {coordinates : List Coordinate}
    (h : texts.mapM Coordinate.parse = .ok coordinates) : c ∈ coordinates ↔ Addresses texts c := by
  obtain ⟨hread, hsource⟩ := mem_of_mapM_eq_ok h
  constructor
  · intro hc
    obtain ⟨text, htext, hparse⟩ := hsource c hc
    obtain ⟨hnamed, rfl⟩ := Coordinate.parse_eq_ok_iff.1 hparse
    exact ⟨hnamed, htext⟩
  · rintro ⟨hnamed, htext⟩
    obtain ⟨c', hc', hparse⟩ := hread _ htext
    -- The text is read as the coordinate itself.
    rw [hnamed.parse_render, Except.ok.injEq] at hparse
    rw [hparse]
    exact hc'

namespace Document

variable {d e : Document}

/-- Marking by texts that are all coordinates is marking what they address. -/
theorem markTexts_eq_ok_iff : d.markTexts marker texts = .ok e ↔
    (∀ text ∈ texts, IsCoordinateText text) ∧
      e = d.mark marker fun c => decide (Addresses texts c) := by
  have hmark {coordinates : List Coordinate} (h : texts.mapM Coordinate.parse = .ok coordinates) :
      d.markAt marker coordinates = d.mark marker fun c => decide (Addresses texts c) := by
    rw [markAt]
    congr 1
    funext c
    rw [decide_eq_decide]
    exact mem_of_mapM_parse h
  have htexts : (∀ text ∈ texts, IsCoordinateText text) ↔
      ∃ coordinates, texts.mapM Coordinate.parse = .ok coordinates := by
    rw [exists_mapM_eq_ok_iff]
    simp only [Coordinate.exists_parse_iff]
  rw [markTexts, bind_eq_ok_iff, htexts]
  constructor
  · rintro ⟨coordinates, hread, hresult⟩
    exact ⟨⟨coordinates, hread⟩, (hmark hread).symm ▸ (pure_eq_ok_iff.1 hresult).symm⟩
  · rintro ⟨⟨coordinates, hread⟩, rfl⟩
    exact ⟨coordinates, hread, pure_eq_ok_iff.2 (hmark hread)⟩

/-- Marking by texts fails exactly with the first text that is no coordinate. -/
theorem markTexts_eq_error_iff {failure : Error} : d.markTexts marker texts = .error failure ↔
    ∃ before text after, texts = before ++ text :: after ∧
      (∀ other ∈ before, IsCoordinateText other) ∧ ¬ IsCoordinateText text ∧
      failure = .malformedCoordinate text := by
  rw [markTexts, ← failure?_eq_some_iff, failure?_bind_pure, failure?_eq_some_iff,
    mapM_eq_error_iff]
  simp only [Coordinate.exists_parse_iff, Coordinate.parse_eq_error_iff]

/-- Marking by some texts and then by others is marking by all of them. -/
theorem markTexts_append (d : Document) (marker : Name) (texts others : List String) :
    d.markTexts marker (texts ++ others)
      = d.markTexts marker texts >>= fun e => e.markTexts marker others := by
  simp only [markTexts, List.mapM_append, bind_assoc, pure_bind]
  -- Texts are read in the same order on both sides, so only the marks are left to be compared.
  congr 1
  funext xs
  congr 1
  funext ys
  simp only [markAt, mark_mark, List.mem_append, Bool.decide_or]

/-- Of a test only matters what it says about the sites of the document. -/
theorem mark_congr_sites {a b : Coordinate → Bool}
    (h : ∀ x ∈ d.definitions, ∀ s ∈ definitionSites x, a s.coordinate = b s.coordinate) :
    d.mark marker a = d.mark marker b := by
  rw [mark, mark]
  congr 1
  refine List.map_congr_left fun x hx => definition_eq_of_bare_of_sites ?_ ?_
  · rw [bareDefinition_markDefinition, bareDefinition_markDefinition]
  · rw [definitionSites_markDefinition, definitionSites_markDefinition]
    refine List.map_congr_left fun s hs => ?_
    rw [Site.mark, Site.mark, h x hx s hs]

/-- Texts that address no site of the document have no effect. -/
theorem markTexts_append_of_not_addressed {others : List String}
    (hothers : ∀ text ∈ others, IsCoordinateText text)
    (hnone : ∀ x ∈ d.definitions, ∀ s ∈ definitionSites x, ¬ Addresses others s.coordinate) :
    d.markTexts marker (texts ++ others) = d.markTexts marker texts := by
  rw [markTexts_append]
  cases hfirst : d.markTexts marker texts with
  | error failure => rfl
  | ok e =>
    obtain ⟨-, rfl⟩ := markTexts_eq_ok_iff.1 hfirst
    refine markTexts_eq_ok_iff.2 ⟨hothers, ?_⟩
    rw [mark_mark]
    refine mark_congr_sites fun x hx s hs => ?_
    simp [hnone x hx s hs]

end Document

/-! ## What is asked for -/

/-- A site before and after marking: a marker is appended if the texts address the element and it
    lacks the marker. Otherwise its directives stay. -/
structure SiteAddressed (marker : Name) (texts : List String) (before after : Site) : Prop where
  coordinate : after.coordinate = before.coordinate
  marked : Addresses texts before.coordinate → carries marker before.directives = false →
    after.directives = before.directives ++ [⟨marker, []⟩]
  spared : Addresses texts before.coordinate → carries marker before.directives = true →
    after.directives = before.directives
  elsewhere : ¬ Addresses texts before.coordinate → after.directives = before.directives

/-- A definition before and after marking: nothing but the directives of its sites may differ, and
    these as the texts say. -/
structure DefinitionAddressed (marker : Name) (texts : List String)
    (before after : Definition) : Prop where
  bare : bareDefinition after = bareDefinition before
  sites : List.Forall₂ (SiteAddressed marker texts) (definitionSites before) (definitionSites after)

/-- Marking a site by a test does what is asked for. -/
theorem siteAddressed_mark (s : Site) :
    SiteAddressed marker texts s (s.mark marker fun c => decide (Addresses texts c)) where
  coordinate := rfl
  marked haddressed hlacks := by simp [Site.mark, markIf, markDirectives, haddressed, hlacks]
  spared haddressed hcarries := by simp [Site.mark, markIf, markDirectives, haddressed, hcarries]
  elsewhere hnot := by simp [Site.mark, markIf, hnot]

/-- What is asked for leaves no choice. -/
theorem SiteAddressed.unique {before after other : Site}
    (h : SiteAddressed marker texts before after)
    (hother : SiteAddressed marker texts before other) : after = other := by
  have hcoordinate : after.coordinate = other.coordinate :=
    h.coordinate.trans hother.coordinate.symm
  have hdirectives : after.directives = other.directives := by
    by_cases haddressed : Addresses texts before.coordinate
    · cases hcarries : carries marker before.directives with
      | true => rw [h.spared haddressed hcarries, hother.spared haddressed hcarries]
      | false => rw [h.marked haddressed hcarries, hother.marked haddressed hcarries]
    · rw [h.elsewhere haddressed, hother.elsewhere haddressed]
  cases after
  cases other
  simp_all

/-- At a site only marking by a test does what is asked for. -/
theorem siteAddressed_iff {before after : Site} : SiteAddressed marker texts before after ↔
    before.mark marker (fun c => decide (Addresses texts c)) = after := by
  constructor
  · exact fun h => (siteAddressed_mark before).unique h
  · rintro rfl
    exact siteAddressed_mark before

/-- A relation that gives every element exactly its image relates lists of elements to lists of
    images. -/
private theorem forall₂_iff_map_eq {α β : Type} {r : α → β → Prop} {f : α → β}
    (h : ∀ x y, r x y ↔ f x = y) {xs : List α} {ys : List β} :
    List.Forall₂ r xs ys ↔ xs.map f = ys := by
  have hr : r = fun x y => f x = y := funext₂ fun x y => propext (h x y)
  have heq := List.forall₂_map_left_iff (R := Eq) (f := f) (l := xs) (u := ys)
  rw [hr, ← heq, List.forall₂_eq_eq_eq]

/-- To a definition only marking by a test does what is asked for. -/
theorem definitionAddressed_iff {before after : Definition} :
    DefinitionAddressed marker texts before after ↔
      markDefinition marker (fun c => decide (Addresses texts c)) before = after := by
  have hsites : List.Forall₂ (SiteAddressed marker texts) (definitionSites before)
      (definitionSites after) ↔ (definitionSites before).map
        (Site.mark marker fun c => decide (Addresses texts c)) = definitionSites after := by
    apply forall₂_iff_map_eq
    exact fun _ _ => siteAddressed_iff
  constructor
  · intro h
    refine definition_eq_of_bare_of_sites ?_ ?_
    · rw [bareDefinition_markDefinition, h.bare]
    · rw [definitionSites_markDefinition, hsites.1 h.sites]
  · rintro rfl
    exact ⟨bareDefinition_markDefinition before,
      hsites.2 (definitionSites_markDefinition before).symm⟩

/-- To a document only marking by a test does what is asked for. -/
theorem definitionsAddressed_iff {d e : Document} :
    List.Forall₂ (DefinitionAddressed marker texts) d.definitions e.definitions ↔
      e = d.mark marker fun c => decide (Addresses texts c) := by
  have hdefinitions : List.Forall₂ (DefinitionAddressed marker texts) d.definitions e.definitions ↔
      d.definitions.map (markDefinition marker fun c => decide (Addresses texts c))
        = e.definitions := by
    apply forall₂_iff_map_eq
    exact fun _ _ => definitionAddressed_iff
  obtain ⟨definitions⟩ := e
  rw [hdefinitions, Document.mark, Document.mk.injEq, eq_comm]

/-- Marking by texts that are all coordinates gives a document, and this is the only one with the
    same definitions in which a marker is appended to the directives of exactly those sites that the
    texts address and that lack it. Of other texts the first one that is no coordinate is reported.
    Texts that address no site have no effect. -/
theorem Document.markTexts_exact (d : Document) (marker : Name) (texts : List String) :
    ((∀ text ∈ texts, IsCoordinateText text) → ∃ e, d.markTexts marker texts = .ok e ∧
      ∀ f : Document, List.Forall₂ (DefinitionAddressed marker texts) d.definitions f.definitions ↔
        f = e) ∧
    (∀ failure, d.markTexts marker texts = .error failure ↔
      ∃ before text after, texts = before ++ text :: after ∧
        (∀ other ∈ before, IsCoordinateText other) ∧ ¬ IsCoordinateText text ∧
        failure = .malformedCoordinate text) ∧
    ∀ others, (∀ text ∈ others, IsCoordinateText text) →
      (∀ x ∈ d.definitions, ∀ s ∈ definitionSites x, ¬ Addresses others s.coordinate) →
      d.markTexts marker (texts ++ others) = d.markTexts marker texts := by
  refine ⟨fun htexts => ?_, fun _ => markTexts_eq_error_iff,
    fun _ hothers hnone => markTexts_append_of_not_addressed hothers hnone⟩
  exact ⟨_, markTexts_eq_ok_iff.2 ⟨htexts, rfl⟩, fun _ => definitionsAddressed_iff⟩

/-! ## A shop with sizes -/

/-- A shop with a field that is declared twice, of which the second declaration is marked. -/
def sizedShop : Document := ⟨[
  .type ⟨none, "Shop", [], .object [] [⟨none, "find",
    [⟨none, "name", .named "String", none, []⟩], .named "Item", []⟩]⟩,
  .type ⟨none, "Size", [], .enum [⟨none, "SMALL", []⟩, ⟨none, "BIG", []⟩]⟩,
  .typeExtension ⟨none, "Shop", [], .object [] [⟨none, "find",
    [⟨none, "name", .named "String", none, []⟩, ⟨none, "size", .named "Size", none, []⟩],
    .named "Item", [⟨defaultMarker, []⟩]⟩]⟩]⟩

/-- A type, an enum value, a field and one of its arguments. -/
def sizedShopTexts : List String := ["Shop", "Size.BIG", "Shop.find", "Shop.find.name"]

/-- Both declarations of the type and of the argument gain the marker, and of the field the one that
    lacks it. A member that is not there has no effect, and a text with an empty part is reported. -/
theorem sizedShop_marked : (∀ text ∈ sizedShopTexts, IsCoordinateText text) ∧
    ∃ e, sizedShop.markTexts defaultMarker sizedShopTexts = .ok e ∧
      List.Forall₂ (DefinitionAddressed defaultMarker sizedShopTexts)
        sizedShop.definitions e.definitions ∧
      sizedShop.markTexts defaultMarker (sizedShopTexts ++ ["Shop.lost"]) = .ok e ∧
      sizedShop.markTexts defaultMarker (sizedShopTexts ++ ["Shop..name"])
        = .error (.malformedCoordinate "Shop..name") := by
  have htexts : ∀ text ∈ sizedShopTexts, IsCoordinateText text := by decide +kernel
  obtain ⟨hgood, -, hother⟩ := sizedShop.markTexts_exact defaultMarker sizedShopTexts
  obtain ⟨e, he, hexact⟩ := hgood htexts
  have hlost := hother ["Shop.lost"] (by decide +kernel) (by decide +kernel)
  obtain ⟨-, hbad, -⟩ :=
    sizedShop.markTexts_exact defaultMarker (sizedShopTexts ++ ["Shop..name"])
  have hreport := (hbad (.malformedCoordinate "Shop..name")).2
    ⟨sizedShopTexts, "Shop..name", [], rfl, htexts, by decide +kernel, rfl⟩
  exact ⟨htexts, e, he, (hexact e).2 rfl, hlost.trans he, hreport⟩

end SchemaView
