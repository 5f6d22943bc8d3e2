import SchemaView.Proofs.DeclaredReach
import SchemaView.Proofs.MarkingLaws

/-!
# Marking only takes reach away

Both ways of marking leave an answer to what is reached past the marker where there was one, with no
type more in it. Nothing is lost either unless a mark is new and stands on an element of a reached
type: steps from reached types are read off their own declarations, which stay as they are, and an
object declares its interfaces whether it is marked or not.

Of marks on whole types this is all there is to know: nothing is lost exactly if all reached types
are kept.

## Key results

- `markDeclaration_of_sites`: a declaration without new marks stays as it is
- `reachable_mark_elsewhere`: marks on elements of other types change nothing
- `reachable_markTypes_eq_iff`: which marks on types take reach away
- `reachable_marking_shrinks`: both ways of marking
-/

namespace SchemaView

open Sdl

variable {marker : Name} {hit : Coordinate → Bool}

/-! ## Declarations without new marks -/

/-- A site stays as it is if it is not meant or has the marker. -/
theorem Site.mark_eq_self {s : Site}
    (h : hit s.coordinate = true → carries marker s.directives = true) :
    s.mark marker hit = s := by
  rw [Site.mark, (markIf_eq_self_iff).2 h]

/-- A declaration stays as it is if all of its sites that are meant have the marker. -/
theorem markDeclaration_of_sites {u : TypeDecl}
    (h : ∀ s ∈ sitesOf u, hit s.coordinate = true → carries marker s.directives = true) :
    markDeclaration marker hit u = u := by
  have hbare : bareDeclaration (markDeclaration marker hit u) = bareDeclaration u := by
    have hdefinition : bareDefinition (markDefinition marker hit (.type u))
        = bareDefinition (.type u) := bareDefinition_markDefinition _
    simpa [markDefinition, bareDefinition] using hdefinition
  apply declaration_eq_of_bare hbare
  rw [sitesOf_markDeclaration]
  have hsame : ∀ s ∈ sitesOf u, s.mark marker hit = s := fun s hs => Site.mark_eq_self (h s hs)
  rw [List.map_congr_left hsame, List.map_id']

/-- Marks leave the interfaces that a declaration names. -/
theorem interfacesOf_markBody (type : Name) (b : TypeBody) :
    interfacesOf (markBody marker hit type b) = interfacesOf b := by
  cases b <;> rfl

namespace Document

variable {d : Document} {reached : NameSet}

/-- A declaration of a type is a definition of the document, with the same sites. -/
theorem exists_definition_of_mem_typeDeclarations {u : TypeDecl} (hu : u ∈ d.typeDeclarations) :
    ∃ x ∈ d.definitions, definitionSites x = sitesOf u := by
  rcases List.mem_append.1 hu with hdefined | hextension
  · -- The definition that counts for a name is one of those in the text.
    obtain ⟨name, hname⟩ := (OrderedMap.mem_values_iff _ _).1 hdefined
    obtain ⟨t, ht, heq⟩ := List.mem_map.1 (OrderedMap.mem_of_get?_ofList _ _ _ hname)
    obtain ⟨x, hx, hdefinition⟩ := List.mem_filterMap.1 ht
    obtain rfl : t = u := congrArg Prod.snd heq
    refine ⟨x, hx, ?_⟩
    cases x <;> simp_all [typeDefinition?, definitionSites]
  · obtain ⟨x, hx, hdefinition⟩ := List.mem_filterMap.1 hextension
    refine ⟨x, hx, ?_⟩
    cases x <;> simp_all [typeExtension?, definitionSites]

/-! ## Marks elsewhere -/

/-- New marks stand only on elements of types outside of a set. -/
def MarksOutside (d : Document) (marker : Name) (hit : Coordinate → Bool) (types : NameSet) :
    Prop :=
  ∀ x ∈ d.definitions, ∀ s ∈ definitionSites x, hit s.coordinate = true →
    carries marker s.directives = true ∨ s.coordinate.typeName ∉ types

/-- Where new marks stand outside of a set, the declarations of its types stay as they are. -/
theorem MarksOutside.markDeclaration_eq (h : d.MarksOutside marker hit reached) {u : TypeDecl}
    (hu : u ∈ d.typeDeclarations) (hname : u.name ∈ reached) :
    markDeclaration marker hit u = u := by
  obtain ⟨x, hx, hsites⟩ := exists_definition_of_mem_typeDeclarations hu
  apply markDeclaration_of_sites
  intro s hs hhit
  rw [← hsites] at hs
  refine (h x hx s hs hhit).resolve_right fun hnot => hnot ?_
  rw [hsites] at hs
  rwa [typeName_of_mem_sitesOf hs]

/-- So does the definition of each of them. -/
theorem MarksOutside.get?_definedTypes (h : d.MarksOutside marker hit reached) {n : Name}
    {t : TypeDecl} (ht : d.definedTypes.get? n = some t) (hn : n ∈ reached) :
    (d.mark marker hit).definedTypes.get? n = some t := by
  have hname : t.name = n := name_of_get?_definedTypes ht
  have hdeclared : t ∈ d.typeDeclarations :=
    List.mem_append_left _ ((OrderedMap.mem_values_iff _ _).2 ⟨n, ht⟩)
  rw [get?_definedTypes_mark, ht, Option.map_some]
  rw [h.markDeclaration_eq hdeclared (hname ▸ hn)]

/-- Steps from the types of the set stay. -/
theorem MarksOutside.leadsTo (h : d.MarksOutside marker hit reached) {source target : Name}
    (hsource : source ∈ reached) (hlead : d.LeadsTo (some marker) source target) :
    (d.mark marker hit).LeadsTo (some marker) source target := by
  have htypes : ∀ n t, d.types.get? n = some t →
      (d.mark marker hit).types.get? n = some (t.mark marker hit) := by
    intro n t ht
    rw [types_mark, OrderedMap.get?_map, ht, Option.map_some]
  cases hlead with
  | @refers t u ht hu hrefers hscalar =>
    obtain ⟨hdeclared, hname⟩ := (mem_declarations_iff ht u).1 hu
    have hsame := h.markDeclaration_eq hdeclared (hname ▸ hsource)
    refine .refers (htypes _ _ ht) ?_ hrefers hscalar
    rw [NamedType.declarations_mark]
    exact List.mem_map.2 ⟨u, hu, hsame⟩
  | @implementedBy t u ht hu hobject hi =>
    -- The object may be marked, but it stands for its interfaces all the same.
    have hmarked : markDeclaration marker hit u ∈ (t.mark marker hit).declarations :=
      List.mem_map_of_mem hu
    refine .implementedBy (htypes _ _ ht) hmarked ?_ ?_
    · rw [markDeclaration_body, kind_markBody]
      exact hobject
    · rw [markDeclaration_body, interfacesOf_markBody]
      exact hi

/-- New marks on elements of types that are not reached change nothing about what is reached. -/
theorem reachable_mark_elsewhere (h : d.reachable (some marker) = .ok reached)
    (houtside : d.MarksOutside marker hit reached) :
    (d.mark marker hit).reachable (some marker) = .ok reached := by
  obtain ⟨left, hleft, hsub⟩ := reachable_mark hit h
  have hkept : ∀ n, d.Derivable (some marker) (· ∈ d.roots.map Prod.snd) n →
      (d.mark marker hit).Derivable (some marker) (· ∈ d.roots.map Prod.snd) n := by
    intro n hn
    -- Whatever is derived on the way is reached, so its definition and its steps are still there.
    induction hn with
    | @start n t hstart ht hopen =>
      have hreached := (mem_iff_derivable h n).2 (.start hstart ht hopen)
      exact .start hstart (houtside.get?_definedTypes ht hreached) hopen
    | @step s n t hs hlead ht hopen ih =>
      have hsource := (mem_iff_derivable h s).2 hs
      have hreached := (mem_iff_derivable h n).2 (.step hs hlead ht hopen)
      exact .step ih (houtside.leadsTo hsource hlead) (houtside.get?_definedTypes ht hreached) hopen
  have hsame : left = reached := by
    refine NameSet.ext fun n => ⟨hsub n, fun hn => ?_⟩
    rw [mem_iff_derivable hleft, roots_mark]
    exact hkept n ((mem_iff_derivable h n).1 hn)
  rw [hleft, hsame]

/-! ## Marks on types -/

/-- A reached type that is marked is not reached any more. -/
theorem not_mem_of_marked {left : NameSet} {n : Name}
    (hleft : (d.mark marker hit).reachable (some marker) = .ok left)
    (hhit : hit (.type n) = true) : n ∉ left := by
  intro hn
  obtain ⟨u, hu, hopen⟩ := ((mem_iff_derivable hleft n).1 hn).definition
  rw [get?_definedTypes_mark] at hu
  obtain ⟨t, ht, rfl⟩ := Option.map_eq_some_iff.1 hu
  rw [markDeclaration_directives, name_of_get?_definedTypes ht, hhit, isIgnored_markIf,
    Bool.or_true] at hopen
  cases hopen

/-- Marking types takes something away exactly if a reached type is not kept. -/
theorem reachable_markTypes_eq_iff {keep left : NameSet}
    (h : d.reachable (some marker) = .ok reached)
    (hleft : (d.markTypes marker keep).reachable (some marker) = .ok left) :
    left = reached ↔ ∀ n ∈ reached, n ∈ keep := by
  constructor
  · rintro rfl n hn
    by_contra hnot
    refine not_mem_of_marked hleft ?_ hn
    simp [Coordinate.isType, Coordinate.typeName, hnot]
  · intro hkept
    have houtside : d.MarksOutside marker
        (fun c => c.isType && !decide (c.typeName ∈ keep)) reached := by
      intro x _ s _ hhit
      refine Or.inr fun hs => ?_
      have hin := hkept _ hs
      simp [hin] at hhit
    have hsame := reachable_mark_elsewhere h houtside
    rw [← markTypes, hleft] at hsame
    exact Except.ok.inj hsame

/-! ## Both ways of marking -/

/-- Where there is an answer to what is reached past a marker, there is one after marking all types
    but some, with no type more, and with the same types exactly if all of them are kept. Nor is
    there a type more after marking by texts, and none less if the texts address new elements of
    other types only. -/
theorem reachable_marking_shrinks (h : d.reachable (some marker) = .ok reached) :
    (∀ keep, ∃ left, (d.markTypes marker keep).reachable (some marker) = .ok left ∧
      (∀ n ∈ left, n ∈ reached) ∧ (left = reached ↔ ∀ n ∈ reached, n ∈ keep)) ∧
    ∀ texts, (∀ text ∈ texts, IsCoordinateText text) →
      ∃ e left, d.markTexts marker texts = .ok e ∧ e.reachable (some marker) = .ok left ∧
        (∀ n ∈ left, n ∈ reached) ∧
        ((∀ x ∈ d.definitions, ∀ s ∈ definitionSites x, Addresses texts s.coordinate →
          carries marker s.directives = true ∨ s.coordinate.typeName ∉ reached) →
            left = reached) := by
  constructor
  · intro keep
    obtain ⟨left, hleft, hsub⟩ :=
      reachable_mark (fun c => c.isType && !decide (c.typeName ∈ keep)) h
    exact ⟨left, hleft, hsub, reachable_markTypes_eq_iff h hleft⟩
  · intro texts htexts
    obtain ⟨left, hleft, hsub⟩ := reachable_mark (fun c => decide (Addresses texts c)) h
    refine ⟨_, left, markTexts_eq_ok_iff.2 ⟨htexts, rfl⟩, hleft, hsub, fun helsewhere => ?_⟩
    have houtside : d.MarksOutside marker (fun c => decide (Addresses texts c)) reached :=
      fun x hx s hs hhit => helsewhere x hx s hs (of_decide_eq_true hhit)
    rw [reachable_mark_elsewhere h houtside] at hleft
    exact (Except.ok.inj hleft).symm

end Document

/-- In the shop with every kind of reference, nothing is lost with the types that are not reached,
    nor with a unit and a field that is hidden already. Without filters for the node, these are lost
    and nothing else comes instead. -/
theorem partsShop_reach_after_marking : ∃ reached,
    partsShop.reachable (some "hidden") = .ok reached ∧
    (partsShop.markTypes "hidden" reached).reachable (some "hidden") = .ok reached ∧
    (∃ e, partsShop.markTexts "hidden" ["Unit", "Query.secret"] = .ok e ∧
      e.reachable (some "hidden") = .ok reached) ∧
    ∃ e left, partsShop.markTexts "hidden" ["Query.node.by"] = .ok e ∧
      e.reachable (some "hidden") = .ok left ∧ "Filter" ∈ reached ∧ "Filter" ∉ left ∧
      ∀ n ∈ left, n ∈ reached := by
  obtain ⟨reached, hreached, hnames⟩ : ∃ reached,
      partsShop.reachable (some "hidden") = .ok reached ∧
      reached.names = ["Filter", "Node", "Part", "Query", "Screw", "Shop"] :=
    ⟨_, rfl, by decide +kernel⟩
  obtain ⟨htypes, htexts⟩ := Document.reachable_marking_shrinks hreached
  have hmem : ∀ n, n ∈ reached ↔ n ∈ ["Filter", "Node", "Part", "Query", "Screw", "Shop"] := by
    intro n
    rw [NameSet.mem_def, hnames]
  obtain ⟨kept, hkept, -, hsame⟩ := htypes reached
  rw [hsame.2 fun _ hn => hn] at hkept
  obtain ⟨e, left, he, hleft, -, hequal⟩ := htexts ["Unit", "Query.secret"] (by decide +kernel)
  have helsewhere : ∀ x ∈ partsShop.definitions, ∀ s ∈ definitionSites x,
      Addresses ["Unit", "Query.secret"] s.coordinate →
        carries "hidden" s.directives = true ∨ s.coordinate.typeName ∉ reached := by
    simp only [hmem]
    decide +kernel
  rw [hequal helsewhere] at hleft
  obtain ⟨e', left', he', hleft', hsub, -⟩ := htexts ["Query.node.by"] (by decide +kernel)
  have hlost : "Filter" ∉ left' := by
    cases he'
    cases hleft'
    decide +kernel
  exact ⟨reached, hreached, hkept, ⟨e, he, hleft⟩, e', left', he', hleft',
    (hmem _).2 (by decide), hlost, hsub⟩

end SchemaView
