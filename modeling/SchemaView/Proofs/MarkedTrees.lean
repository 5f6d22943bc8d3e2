import SchemaView.Proofs.LegibleText
import SchemaView.Proofs.MarkerDefinition
import SchemaView.Proofs.ReadNames

/-!
# Marked trees that texts can write

A marker with a name can be written wherever elements are marked, so marking keeps trees well-formed
and documents legible. A marker without one cannot: where a marked document is well-formed nothing
was marked in it.

## Key results

- `wellFormed_marked_iff`: the marked documents that texts can write
- `legible_marked_iff`: marking does not matter for how a text is divided into definitions
-/

namespace SchemaView

open Sdl

/-! ## Marking keeps trees well-formed -/

theorem eq_nil_of_markIf {marker : Name} {condition : Bool} {directives : List Directive}
    (h : markIf condition marker directives = []) : directives = [] := by
  rw [markIf, markDirectives] at h
  split at h
  · split at h
    · exact h
    · exact (List.append_eq_nil_iff.1 h).1
  · exact h

theorem isEmptyBody_markBody (marker : Name) (hit : Coordinate → Bool) (type : Name)
    (b : TypeBody) :
    Reader.isEmptyBody (markBody marker hit type b) = Reader.isEmptyBody b := by
  cases b <;> simp [markBody, Reader.isEmptyBody]

section Marks

variable {marker : Name} (hmarker : IsNameText marker) (hit : Coordinate → Bool)

include hmarker

theorem constDirectives_markIf {directives : List Directive} (h : ConstDirectives directives)
    (condition : Bool) : ConstDirectives (markIf condition marker directives) := by
  rw [markIf, markDirectives]
  split
  · split
    · exact h
    · exact List.forall_mem_append.2
        ⟨h, List.forall_mem_singleton.2 ⟨hmarker, List.forall_mem_nil _⟩⟩
  · exact h

theorem wellFormed_markArgument {a : InputValue} (h : a.WellFormed) (type field : Name) :
    (markArgument marker hit type field a).WellFormed :=
  { h with directives := constDirectives_markIf hmarker h.directives _ }

theorem wellFormed_markField {f : Field} (h : f.WellFormed) (type : Name) :
    (markField marker hit type f).WellFormed :=
  { h with
    arguments := List.forall_mem_map.2 fun a ha =>
      wellFormed_markArgument hmarker hit (h.arguments a ha) type f.name
    directives := constDirectives_markIf hmarker h.directives _ }

theorem wellFormed_markInputField {f : InputValue} (h : f.WellFormed) (type : Name) :
    (markInputField marker hit type f).WellFormed :=
  { h with directives := constDirectives_markIf hmarker h.directives _ }

theorem wellFormed_markEnumValue {v : EnumValue} (h : v.WellFormed) (type : Name) :
    (markEnumValue marker hit type v).WellFormed :=
  { h with directives := constDirectives_markIf hmarker h.directives _ }

theorem wellFormed_markBody {b : TypeBody} (h : b.WellFormed) (type : Name) :
    (markBody marker hit type b).WellFormed := by
  cases b with
  | scalar => exact h
  | union members => exact h
  | object interfaces fields =>
    exact ⟨h.1, List.forall_mem_map.2 fun f hf => wellFormed_markField hmarker hit (h.2 f hf) type⟩
  | interface interfaces fields =>
    exact ⟨h.1, List.forall_mem_map.2 fun f hf => wellFormed_markField hmarker hit (h.2 f hf) type⟩
  | enum values =>
    exact List.forall_mem_map.2 fun v hv => wellFormed_markEnumValue hmarker hit (h v hv) type
  | inputObject fields =>
    exact List.forall_mem_map.2 fun f hf => wellFormed_markInputField hmarker hit (h f hf) type

theorem wellFormed_markDeclaration {t : TypeDecl} (h : t.WellFormed) :
    (markDeclaration marker hit t).WellFormed :=
  { h with
    directives := constDirectives_markIf hmarker h.directives _
    body := wellFormed_markBody hmarker hit h.body t.name }

theorem wellFormed_markDefinition {x : Definition} (h : x.WellFormed) :
    (markDefinition marker hit x).WellFormed := by
  cases x with
  | type t => exact wellFormed_markDeclaration hmarker hit h
  | typeExtension t =>
    have hdeclaration := wellFormed_markDeclaration hmarker hit h.1
    refine ⟨hdeclaration, h.2.1, Bool.eq_false_iff.2 fun hnothing => ?_⟩
    -- What an extension adds is there after marking too.
    rw [Bool.and_eq_true, List.isEmpty_iff, markDeclaration_body, isEmptyBody_markBody] at hnothing
    have hadds := h.2.2
    rw [eq_nil_of_markIf hnothing.1, hnothing.2] at hadds
    cases hadds
  | _ => exact h

theorem wellFormed_markerDefinition : (markerDefinition marker).WellFormed where
  description := fun _ h => nomatch h
  name := hmarker
  arguments := List.forall_mem_nil _
  locations := (by decide : ∀ l ∈ markerPlaces, l ∈ Reader.directiveLocations)
  located := List.cons_ne_nil _ _

end Marks

/-! ## Marking keeps documents legible -/

theorem lacksBlock_markDefinition (marker : Name) (hit : Coordinate → Bool) (x : Definition) :
    (markDefinition marker hit x).lacksBlock = x.lacksBlock := by
  have hbody : ∀ type (b : TypeBody), (markBody marker hit type b).lacksBlock = b.lacksBlock := by
    intro type b
    cases b <;> simp [markBody, TypeBody.lacksBlock]
  cases x <;> simp [markDefinition, Definition.lacksBlock, hbody]

theorem isShorthand_markDefinition (marker : Name) (hit : Coordinate → Bool) (x : Definition) :
    (markDefinition marker hit x).isShorthand = x.isShorthand := by
  cases x <;> rfl

theorem legible_map_markDefinition (marker : Name) (hit : Coordinate → Bool)
    (xs : List Definition) :
    Legible (xs.map (markDefinition marker hit)) ↔ Legible xs := by
  rw [Legible, List.isChain_map]
  simp only [lacksBlock_markDefinition, isShorthand_markDefinition]
  rfl

theorem legible_append_markerDefinition (marker : Name) (xs : List Definition) :
    Legible (xs ++ [markerDefinition marker]) ↔ Legible xs := by
  rw [Legible, List.isChain_append]
  refine ⟨fun h => h.1, fun h => ⟨h, List.isChain_singleton _, fun x _ y hy _ => ?_⟩⟩
  cases hy
  rfl

/-! ## Nothing was marked without a name -/

section Spared

variable {marker : Name} {hit : Coordinate → Bool}

theorem map_eq_self {α : Type} {f : α → α} {xs : List α} (h : ∀ x ∈ xs, f x = x) :
    xs.map f = xs :=
  (List.map_congr_left h).trans (List.map_id' xs)

theorem markField_eq_self {type : Name} {f : Field}
    (h : ∀ s ∈ (Member.ofField f).sites type, hit s.coordinate = false) :
    markField marker hit type f = f := by
  have hfield : hit (.member type f.name) = false := h _ List.mem_cons_self
  have harguments : f.arguments.map (markArgument marker hit type f.name) = f.arguments := by
    refine map_eq_self fun a ha => ?_
    have hargument : hit (.argument type f.name a.name) = false :=
      h ⟨.argument type f.name a.name, a.directives⟩
        (List.mem_cons_of_mem _ (List.mem_map_of_mem ha))
    rw [markArgument, hargument, markIf_false]
  rw [markField, hfield, harguments, markIf_false]

theorem markInputField_eq_self {type : Name} {f : InputValue}
    (h : hit (.member type f.name) = false) :
    markInputField marker hit type f = f := by
  rw [markInputField, h, markIf_false]

theorem markEnumValue_eq_self {type : Name} {v : EnumValue}
    (h : hit (.member type v.name) = false) :
    markEnumValue marker hit type v = v := by
  rw [markEnumValue, h, markIf_false]

theorem markBody_eq_self {type : Name} {b : TypeBody}
    (h : ∀ m ∈ membersOf b, ∀ s ∈ m.sites type, hit s.coordinate = false) :
    markBody marker hit type b = b := by
  cases b with
  | scalar => rfl
  | union members => rfl
  | object interfaces fields =>
    rw [markBody, map_eq_self fun f hf => markField_eq_self (h _ (List.mem_map_of_mem hf))]
  | interface interfaces fields =>
    rw [markBody, map_eq_self fun f hf => markField_eq_self (h _ (List.mem_map_of_mem hf))]
  | enum values =>
    rw [markBody, map_eq_self fun v hv =>
      markEnumValue_eq_self (h _ (List.mem_map_of_mem hv) _ List.mem_cons_self)]
  | inputObject fields =>
    rw [markBody, map_eq_self fun f hf =>
      markInputField_eq_self (h _ (List.mem_map_of_mem hf) _ List.mem_cons_self)]

/-- A declaration of which no element is meant stays as it is. -/
theorem markDeclaration_eq_self {t : TypeDecl} (h : ∀ s ∈ sitesOf t, hit s.coordinate = false) :
    markDeclaration marker hit t = t := by
  have htype : hit (.type t.name) = false := h _ List.mem_cons_self
  have hbody : markBody marker hit t.name t.body = t.body := markBody_eq_self fun m hm s hs =>
    h s (List.mem_cons_of_mem _ (List.mem_flatMap.2 ⟨m, hm, hs⟩))
  rw [markDeclaration, htype, hbody, markIf_false]

/-- An element that is meant carries the marker. -/
theorem hit_eq_false {t : TypeDecl} (hmarker : ¬ IsNameText marker)
    (h : (markDeclaration marker hit t).WellFormed) :
    ∀ s ∈ sitesOf t, hit s.coordinate = false := by
  intro s hs
  rw [Bool.eq_false_iff]
  intro hhit
  have hmarked : s.mark marker hit ∈ sitesOf (markDeclaration marker hit t) := by
    rw [sitesOf_markDeclaration]
    exact List.mem_map_of_mem hs
  -- The use of the marker is well-formed like all others, so its name is one.
  have hcarries : carries marker (s.mark marker hit).directives = true := by
    simp [Site.mark, hhit, markIf, carries_markDirectives]
  obtain ⟨y, hy, hname⟩ := List.any_eq_true.1 hcarries
  rw [← beq_iff_eq.1 hname] at hmarker
  exact hmarker (h.sites _ hmarked y hy).name

theorem markDefinition_eq_self {x : Definition} (hmarker : ¬ IsNameText marker)
    (h : (markDefinition marker hit x).WellFormed) : markDefinition marker hit x = x := by
  cases x with
  | type t => rw [markDefinition, markDeclaration_eq_self (hit_eq_false hmarker h)]
  | typeExtension t => rw [markDefinition, markDeclaration_eq_self (hit_eq_false hmarker h.1)]
  | _ => rfl

end Spared

/-! ## Marked documents -/

namespace Document

variable {d : Document} {config : Config} {hit : Coordinate → Bool}

/-- Texts can write a marked document exactly if the marker has a name or was put nowhere. -/
theorem wellFormed_marked_iff (h : ∀ x ∈ d.definitions, x.WellFormed) :
    (∀ x ∈ ((d.mark config.marker hit).ensureMarkerFor config).definitions, x.WellFormed) ↔
      IsNameText config.marker ∨ (d.mark config.marker hit).ensureMarkerFor config = d := by
  constructor
  · intro hmarked
    by_cases hmarker : IsNameText config.marker
    · exact Or.inl hmarker
    · -- Neither an element nor the end of the document has the marker, so neither was changed.
      refine Or.inr ?_
      rcases (d.mark config.marker hit).definitions_ensureMarkerFor config with hsame | hmore
      · rw [hsame] at hmarked
        have hmark : (d.mark config.marker hit).definitions = d.definitions :=
          map_eq_self fun x hx =>
            markDefinition_eq_self hmarker (hmarked _ (List.mem_map_of_mem hx))
        exact congrArg Document.mk (hsame.trans hmark)
      · have hdefinition := hmarked (markerDefinition config.marker) (by simp [hmore])
        exact absurd hdefinition.name hmarker
  · rintro (hmarker | hsame)
    · have hmark : ∀ x ∈ (d.mark config.marker hit).definitions, x.WellFormed :=
        List.forall_mem_map.2 fun x hx => wellFormed_markDefinition hmarker hit (h x hx)
      rcases (d.mark config.marker hit).definitions_ensureMarkerFor config with hdefs | hdefs
      · rwa [hdefs]
      · rw [hdefs]
        exact List.forall_mem_append.2
          ⟨hmark, List.forall_mem_singleton.2 (wellFormed_markerDefinition hmarker)⟩
    · rwa [hsame]

/-- Marking takes no definition away. -/
theorem definitions_marked_ne_nil (h : d.definitions ≠ []) :
    ((d.mark config.marker hit).ensureMarkerFor config).definitions ≠ [] := by
  have hmark : (d.mark config.marker hit).definitions ≠ [] :=
    fun hnil => h (List.map_eq_nil_iff.1 hnil)
  rcases (d.mark config.marker hit).definitions_ensureMarkerFor config with hsame | hmore
  · rwa [hsame]
  · rw [hmore]
    exact List.append_ne_nil_of_left_ne_nil hmark _

/-- A marked document is as legible as the document. -/
theorem legible_marked_iff :
    Legible ((d.mark config.marker hit).ensureMarkerFor config).definitions
      ↔ Legible d.definitions := by
  have hmark := legible_map_markDefinition config.marker hit d.definitions
  rcases (d.mark config.marker hit).definitions_ensureMarkerFor config with h | h
  · rw [h]
    exact hmark
  · rw [h, legible_append_markerDefinition]
    exact hmark

/-- The documents that are read as they are printed. -/
theorem parse_render_iff : Document.parse d.render = .ok d ↔
    d.definitions ≠ [] ∧ (∀ x ∈ d.definitions, x.WellFormed) ∧ Legible d.definitions := by
  rw [← Sdl.parse_render_iff, Document.parse, Document.render]
  cases Sdl.parse (Sdl.render d.definitions) with
  | error fault =>
    constructor
    · intro h
      cases h
    · intro h
      cases h
  | ok xs =>
    constructor
    · intro h
      cases h
      rfl
    · intro h
      cases h
      rfl

end Document

end SchemaView
