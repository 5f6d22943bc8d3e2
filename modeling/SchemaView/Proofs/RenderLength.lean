import Mathlib.Algebra.Order.BigOperators.Group.List
import Mathlib.Algebra.Order.Ring.Nat
import SchemaView.Proofs.Marking

/-!
# Marks are seen in the printed text

A printed text is joined from parts, and gets longer when a part of it does. A marker that is added
to a declaration makes its line longer, so marking types either leaves a document as it is or makes
its text longer: that it changes nothing can be read off the text.

## Key results

- `length_joinParts`: the length of a joined text
- `length_render_markDefinition`: what marking types does to the text of a definition
- `render_mark_eq_iff`: marking types changes the text if it changes anything
-/

namespace SchemaView

namespace Sdl

/-! ## Joined texts -/

/-- What a part adds to the length of a text, with a separator behind it. Empty parts are left
    out. -/
def partLength (separator : Nat) (part : String) : Nat :=
  if part.isEmpty then 0 else part.length + separator

theorem partLength_lt {separator : Nat} {p q : String} (h : p.length < q.length) :
    partLength separator p < partLength separator q := by
  have hq : q.isEmpty = false := by
    rw [Bool.eq_false_iff, Ne, String.isEmpty_iff]
    rintro rfl
    simp at h
  have hlength : partLength separator q = q.length + separator := by rw [partLength, hq]; rfl
  rw [hlength, partLength]
  split <;> omega

/-- All parts together have no length if none is left after the empty ones, and more than that of a
    separator otherwise. -/
theorem sum_partLength (separator : Nat) (parts : List String) :
    (parts.filter (fun p => !p.isEmpty) = [] ∧ (parts.map (partLength separator)).sum = 0) ∨
      (parts.filter (fun p => !p.isEmpty) ≠ [] ∧
        separator < (parts.map (partLength separator)).sum) := by
  induction parts with
  | nil => exact Or.inl ⟨rfl, rfl⟩
  | cons p parts ih =>
    cases hp : p.isEmpty with
    | true => simpa [hp, partLength] using ih
    | false =>
      have hlength : 0 < p.length := by
        rw [Nat.pos_iff_ne_zero]
        intro h
        simp_all
      have hpart : partLength separator p = p.length + separator := by rw [partLength, hp]; rfl
      refine Or.inr ⟨by simp [hp], ?_⟩
      rw [List.map_cons, List.sum_cons, hpart]
      omega

/-- A text has its parts that are not empty, and a separator between each two. -/
theorem length_joinParts (separator : String) (parts : List String) :
    (joinParts separator parts).length
      = (parts.map (partLength separator.length)).sum - separator.length := by
  induction parts with
  | nil => simp [joinParts]
  | cons p parts ih =>
    rw [joinParts] at ih ⊢
    cases hp : p.isEmpty with
    | true =>
      have hpart : partLength separator.length p = 0 := by rw [partLength, hp]; rfl
      rw [List.filter_cons_of_neg (by simp [hp]), ih, List.map_cons, List.sum_cons, hpart,
        Nat.zero_add]
    | false =>
      have hpart : partLength separator.length p = p.length + separator.length := by
        rw [partLength, hp]
        rfl
      rw [List.filter_cons_of_pos (by simp [hp]), List.map_cons, List.sum_cons, hpart]
      -- A separator follows if another part does.
      rcases sum_partLength separator.length parts with ⟨hnone, hsum⟩ | ⟨hsome, hsum⟩
      · rw [hnone, hsum, String.intercalate_singleton]
        omega
      · rw [String.intercalate_cons_of_ne_nil hsome, String.length_append, String.length_append, ih]
        omega

/-- Longer parts make a longer text. -/
theorem length_joinParts_lt {separator : String} {xs ys : List String}
    (h : (xs.map (partLength separator.length)).sum < (ys.map (partLength separator.length)).sum) :
    (joinParts separator xs).length < (joinParts separator ys).length := by
  have hys := sum_partLength separator.length ys
  rw [length_joinParts, length_joinParts]
  omega

/-! ## Longer declarations -/

/-- Directives with one more take more room. -/
theorem length_renderDirectives_append (directives : List Directive) (d : Directive) :
    (renderDirectives directives).length < (renderDirectives (directives ++ [d])).length := by
  have hlength : "".length < d.render.length := by
    have hat : "@".length = 1 := rfl
    rw [Directive.render, String.length_append, String.length_append, hat]
    exact Nat.lt_of_lt_of_le Nat.zero_lt_one (by omega)
  refine length_joinParts_lt ?_
  have hpart : 0 < partLength " ".length d.render := partLength_lt hlength
  simpa using hpart

/-- The directives of a declaration are one part of its line. -/
theorem renderParts_eq (body : TypeBody) :
    ∃ front back, ∀ directives, body.renderParts directives = front ++ directives :: back := by
  cases body with
  | scalar => exact ⟨[], _, fun _ => rfl⟩
  | object interfaces fields => exact ⟨[_], _, fun _ => rfl⟩
  | interface interfaces fields => exact ⟨[_], _, fun _ => rfl⟩
  | union members => exact ⟨[], _, fun _ => rfl⟩
  | enum values => exact ⟨[], _, fun _ => rfl⟩
  | inputObject fields => exact ⟨[], _, fun _ => rfl⟩

/-- With longer directives a declaration has a longer line. -/
theorem length_renderLine_lt {t : TypeDecl} {directives : List Directive}
    (h : (renderDirectives t.directives).length < (renderDirectives directives).length) :
    t.renderLine.length < { t with directives := directives }.renderLine.length := by
  obtain ⟨front, back, hparts⟩ := renderParts_eq t.body
  refine length_joinParts_lt ?_
  have hpart : partLength " ".length (renderDirectives t.directives)
      < partLength " ".length (renderDirectives directives) := partLength_lt h
  simp only [hparts, List.map_cons, List.map_append, List.sum_cons, List.sum_append]
  omega

end Sdl

open Sdl

/-! ## Marked documents -/

variable {marker : Name} {hit : Coordinate → Bool}

/-- Where only types are marked, a declaration stays as it is or has a longer line. -/
theorem length_renderLine_markDeclaration (h : TypesOnly hit) (t : TypeDecl) :
    markDeclaration marker hit t = t ∨
      t.renderLine.length < (markDeclaration marker hit t).renderLine.length := by
  rw [markDeclaration, markBody_of_typesOnly marker h]
  rcases markIf_eq_or marker (hit (.type t.name)) t.directives with hsame | hadded
  · rw [hsame]
    exact Or.inl rfl
  · rw [hadded]
    exact Or.inr (length_renderLine_lt (length_renderDirectives_append _ _))

/-- Where only types are marked, a definition stays as it is or has a longer text. -/
theorem length_render_markDefinition (h : TypesOnly hit) (x : Definition) :
    markDefinition marker hit x = x ∨
      x.render.length < (markDefinition marker hit x).render.length := by
  cases x with
  | type t =>
    refine (length_renderLine_markDeclaration h t).imp (congrArg Definition.type) fun hlt => ?_
    simp only [markDefinition, Definition.render, String.length_append]
    exact Nat.add_lt_add_left hlt _
  | typeExtension t =>
    refine (length_renderLine_markDeclaration h t).imp (congrArg Definition.typeExtension)
      fun hlt => ?_
    simp only [markDefinition, Definition.render, String.length_append]
    exact Nat.add_lt_add_left hlt _
  | _ => exact Or.inl rfl

/-- Marking types changes the text of a document if it changes the document. -/
theorem Document.render_mark_eq_iff (d : Document) (h : TypesOnly hit) :
    (d.mark marker hit).render = d.render ↔
      ∀ x ∈ d.definitions, markDefinition marker hit x = x := by
  constructor
  · intro hrender x hx
    -- A definition that changed would have made the text longer.
    by_contra hne
    have hle : ∀ y, partLength "\n\n".length y.render
        ≤ partLength "\n\n".length (markDefinition marker hit y).render := fun y => by
      have hy : markDefinition marker hit y = y ∨ _ := length_render_markDefinition h y
      rcases hy with hsame | hlonger
      · rw [hsame]
      · exact (partLength_lt hlonger).le
    have hlt : d.render.length < (d.mark marker hit).render.length := by
      refine length_joinParts_lt ?_
      rw [mark, List.map_map, List.map_map, List.map_map]
      exact List.sum_lt_sum _ _ (fun y _ => hle y)
        ⟨x, hx, partLength_lt ((length_render_markDefinition h x).resolve_left hne)⟩
    exact absurd (congrArg String.length hrender) (Nat.ne_of_gt hlt)
  · intro hsame
    have hdefinitions : d.definitions.map (markDefinition marker hit) = d.definitions := by
      rw [List.map_congr_left hsame, List.map_id']
    rw [render, render, mark, hdefinitions]

end SchemaView
