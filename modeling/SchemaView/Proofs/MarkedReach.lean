import SchemaView.Proofs.GraphCorrect

/-!
# Reachability of marked documents

Compares what a document reaches before and after marking, where a walk ignores the carriers of
the marker. Marks take mentions and open nodes away and never add any, so less is reached; marks
on types that are not reached anyway take away nothing that a walk would have used. A walk that
ignores nothing does not see marks at all.

## Key results

- `reachable_mark`: marking never makes more reachable, nor the graph undefined
- `reachable_mark_unreached`: marking types that are not reached changes nothing
- `typeGraph_none_mark`: without a directive to ignore, marks do not count
-/

namespace SchemaView

open Sdl

variable {marker : Name} {hit : Coordinate → Bool}

theorem isIgnored_markIf (condition : Bool) (directives : List Directive) :
    isIgnored (some marker) (markIf condition marker directives)
      = (isIgnored (some marker) directives || condition) :=
  carries_markIf marker condition directives

/-- What was not ignored without the marks is all that is not ignored with them. -/
theorem isIgnored_of_markIf {condition : Bool} {directives : List Directive}
    (h : isIgnored (some marker) (markIf condition marker directives) = false) :
    isIgnored (some marker) directives = false := by
  rw [isIgnored_markIf, Bool.or_eq_false_iff] at h
  exact h.1

@[simp] theorem isIgnored_none (directives : List Directive) :
    isIgnored none directives = false := rfl

/-! ## Mentions -/

theorem mem_fieldMentions {ignore : Option Name} {type : Name} {f : Field} {x : Mention} :
    x ∈ fieldMentions ignore type f ↔ isIgnored ignore f.directives = false ∧
      (x = .refers type f.type.baseName .field (.element (.member type f.name))
        ∨ ∃ a ∈ f.arguments, isIgnored ignore a.directives = false ∧
          x = .refers type a.type.baseName .argument
            (.element (.argument type f.name a.name))) := by
  unfold fieldMentions
  cases isIgnored ignore f.directives with
  | true => simp
  | false =>
    simp only [Bool.false_eq_true, if_false, List.mem_cons, List.mem_map, List.mem_filter,
      Bool.not_eq_true', true_and]
    refine or_congr_right ⟨?_, ?_⟩
    · rintro ⟨a, ⟨ha, hignored⟩, rfl⟩
      exact ⟨a, ha, hignored, rfl⟩
    · rintro ⟨a, ha, hignored, rfl⟩
      exact ⟨a, ⟨ha, hignored⟩, rfl⟩

theorem mem_inputFieldMentions {ignore : Option Name} {type : Name} {f : InputValue}
    {x : Mention} : x ∈ inputFieldMentions ignore type f ↔ isIgnored ignore f.directives = false ∧
      x = .refers type f.type.baseName .inputField (.element (.member type f.name)) := by
  unfold inputFieldMentions
  cases isIgnored ignore f.directives <;> simp

private theorem mem_fieldMentions_of_markField {type : Name} {f : Field} {x : Mention}
    (h : x ∈ fieldMentions (some marker) type (markField marker hit type f)) :
    x ∈ fieldMentions (some marker) type f := by
  rw [mem_fieldMentions] at h ⊢
  refine ⟨isIgnored_of_markIf h.1, h.2.imp id ?_⟩
  rintro ⟨a, ha, hignored, rfl⟩
  obtain ⟨b, hb, rfl⟩ := List.mem_map.1 ha
  exact ⟨b, hb, isIgnored_of_markIf hignored, rfl⟩

private theorem mem_inputFieldMentions_of_markInputField {type : Name} {f : InputValue}
    {x : Mention}
    (h : x ∈ inputFieldMentions (some marker) type (markInputField marker hit type f)) :
    x ∈ inputFieldMentions (some marker) type f := by
  rw [mem_inputFieldMentions] at h ⊢
  exact ⟨isIgnored_of_markIf h.1, h.2⟩

/-- A marked body mentions nothing that it did not mention before. -/
theorem mem_bodyMentions_of_markBody {type : Name} {b : TypeBody} {x : Mention}
    (h : x ∈ bodyMentions (some marker) type (markBody marker hit type b)) :
    x ∈ bodyMentions (some marker) type b := by
  -- Objects and interfaces alike mention types in their fields.
  have hfields : ∀ fields : List Field,
      x ∈ (fields.map (markField marker hit type)).flatMap (fieldMentions (some marker) type) →
        x ∈ fields.flatMap (fieldMentions (some marker) type) := by
    intro fields hx
    rw [List.flatMap_map] at hx
    obtain ⟨f, hf, hx⟩ := List.mem_flatMap.1 hx
    exact List.mem_flatMap.2 ⟨f, hf, mem_fieldMentions_of_markField hx⟩
  cases b with
  | scalar => exact h
  | union members => exact h
  | enum values => exact h
  | object interfaces fields =>
    simp only [markBody, bodyMentions, List.mem_append] at h ⊢
    exact h.imp (hfields fields) id
  | interface interfaces fields =>
    simp only [markBody, bodyMentions, List.mem_append] at h ⊢
    exact h.imp (hfields fields) id
  | inputObject fields =>
    simp only [markBody, bodyMentions, List.flatMap_map] at h ⊢
    obtain ⟨f, hf, hx⟩ := List.mem_flatMap.1 h
    exact List.mem_flatMap.2 ⟨f, hf, mem_inputFieldMentions_of_markInputField hx⟩

/-- A body mentions the same with marks as without if nothing is ignored. -/
theorem bodyMentions_none_markBody (type : Name) (b : TypeBody) :
    bodyMentions none type (markBody marker hit type b) = bodyMentions none type b := by
  have hfield : ∀ f, fieldMentions none type (markField marker hit type f)
      = fieldMentions none type f := by
    intro f
    have hall : ∀ xs : List InputValue, xs.filter (fun _ => true) = xs :=
      fun xs => List.filter_eq_self.2 fun _ _ => rfl
    simp only [fieldMentions, markField, isIgnored_none, Bool.not_false, Bool.false_eq_true,
      if_false, hall, List.map_map]
    rfl
  have hinput : ∀ f, inputFieldMentions none type (markInputField marker hit type f)
      = inputFieldMentions none type f := fun _ => rfl
  cases b with
  | scalar | union _ | enum _ => rfl
  | object interfaces fields => simp only [markBody, bodyMentions, List.flatMap_map, hfield]
  | interface interfaces fields => simp only [markBody, bodyMentions, List.flatMap_map, hfield]
  | inputObject fields => simp only [markBody, bodyMentions, List.flatMap_map, hinput]

/-- An error about a mention depends on nothing but the names of the defined types. -/
theorem danglingError?_map (defined : OrderedMap Name TypeDecl) (f : Name → TypeDecl → TypeDecl) :
    danglingError? (defined.map f) = danglingError? defined := by
  funext x
  rcases x with type | ⟨source, target, relation, referrer⟩ | ⟨interface, object⟩ <;>
    simp [danglingError?]

namespace Document

variable {d : Document}

/-- A marked document mentions nothing that it did not mention before. -/
theorem mem_mentions_of_mark {x : Mention}
    (h : x ∈ (d.mark marker hit).mentions (some marker)) : x ∈ d.mentions (some marker) := by
  simp only [mentions, definedTypes_mark, OrderedMap.values_map_const, extensions_mark,
    List.flatMap_map, List.mem_append] at h ⊢
  refine h.imp ?_ ?_
  · intro hx
    obtain ⟨t, ht, hx⟩ := List.mem_flatMap.1 hx
    exact List.mem_flatMap.2 ⟨t, ht, mem_bodyMentions_of_markBody hx⟩
  · intro hx
    obtain ⟨t, ht, hx⟩ := List.mem_flatMap.1 hx
    refine List.mem_flatMap.2 ⟨t, ht, ?_⟩
    rw [extensionMentions, List.mem_cons] at hx ⊢
    exact hx.imp id mem_bodyMentions_of_markBody

/-- Where only types are marked, a document mentions what it did before. -/
theorem mentions_mark_of_typesOnly (h : TypesOnly hit) (ignore : Option Name) :
    (d.mark marker hit).mentions ignore = d.mentions ignore := by
  simp only [mentions, definedTypes_mark, OrderedMap.values_map_const, extensions_mark,
    List.flatMap_map, extensionMentions, markDeclaration_name, markDeclaration_body,
    markBody_of_typesOnly marker h]
  rfl

theorem mentions_none_mark : (d.mark marker hit).mentions none = d.mentions none := by
  simp only [mentions, definedTypes_mark, OrderedMap.values_map_const, extensions_mark,
    List.flatMap_map, extensionMentions, markDeclaration_name, markDeclaration_body,
    bodyMentions_none_markBody]
  rfl

@[simp] theorem roots_mark : (d.mark marker hit).roots = d.roots := by
  simp [roots, declaredRoots]

/-- The graph in which nothing is ignored is the same with marks as without. -/
theorem typeGraph_none_mark : (d.mark marker hit).typeGraph none = d.typeGraph none := by
  have hentries : (d.mark marker hit).typeEntries none = d.typeEntries none := by
    apply OrderedMap.ext_entries
    simp [typeEntries, definedTypes_mark]
  simp only [typeGraph, mentions_none_mark, hentries]
  rw [definedTypes_mark, danglingError?_map]

/-! ## Marking takes away -/

/-- Marking keeps every mentioned type and every root there. -/
theorem Resolves.mark (h : d.Resolves (some marker)) :
    (d.mark marker hit).Resolves (some marker) where
  mentioned x hx := by
    rw [definedTypes_mark, danglingError?_map]
    exact h.mentioned x (mem_mentions_of_mark hx)
  roots root hroot := by
    rw [keys_definedTypes_mark]
    exact h.roots root (roots_mark ▸ hroot)

theorem isOpen_graphOf_of_mark {n : Name}
    (h : ((d.mark marker hit).graphOf (some marker)).isOpen n = true) :
    (d.graphOf (some marker)).isOpen n = true := by
  rw [isOpen_graphOf, get?_definedTypes_mark] at h
  rw [isOpen_graphOf]
  refine h.imp ?_ ?_
  · rintro ⟨u, hu, hignored⟩
    obtain ⟨t, ht, rfl⟩ := Option.map_eq_some_iff.1 hu
    exact ⟨t, ht, isIgnored_of_markIf hignored⟩
  · rintro ⟨hnone, x, hx, htouch⟩
    exact ⟨Option.map_eq_none_iff.1 hnone, x, mem_mentions_of_mark hx, htouch⟩

theorem mem_successors_graphOf_of_mark {n t : Name}
    (h : t ∈ ((d.mark marker hit).graphOf (some marker)).successors n) :
    t ∈ (d.graphOf (some marker)).successors n := by
  rw [mem_successors_graphOf] at h ⊢
  obtain ⟨x, hx, hedge⟩ := h
  exact ⟨x, mem_mentions_of_mark hx, hedge⟩

/-- Marking never makes more reachable, and leaves an answer where there was one. -/
theorem reachable_mark (hit : Coordinate → Bool) {reached : NameSet}
    (h : d.reachable (some marker) = .ok reached) :
    ∃ reached', (d.mark marker hit).reachable (some marker) = .ok reached'
      ∧ ∀ n ∈ reached', n ∈ reached := by
  obtain ⟨hr, -⟩ := (d.reachable_eq_ok_iff _ _).1 h
  have h' := ((d.mark marker hit).reachable_eq_ok_iff (some marker) _).2 ⟨hr.mark, rfl⟩
  refine ⟨_, h', fun n hn => ?_⟩
  -- Both answers are what the graphs reach, and the graph of the marked document is smaller.
  rw [mem_of_reachable_eq_ok _ _ h', roots_mark] at hn
  rw [mem_of_reachable_eq_ok _ _ h]
  exact hn.mono (fun _ => isOpen_graphOf_of_mark) (fun _ _ => mem_successors_graphOf_of_mark)

/-- Marking types that are not reached changes nothing about what is reached. -/
theorem reachable_mark_unreached {reached : NameSet} (htypes : TypesOnly hit)
    (hunreached : ∀ n, hit (.type n) = true → n ∉ reached)
    (h : d.reachable (some marker) = .ok reached) :
    (d.mark marker hit).reachable (some marker) = .ok reached := by
  obtain ⟨reached', h', hsub⟩ := reachable_mark hit h
  have hmentions : (d.mark marker hit).mentions (some marker) = d.mentions (some marker) :=
    mentions_mark_of_typesOnly htypes (some marker)
  rw [h']
  congr 1
  refine NameSet.ext fun n => ⟨hsub n, fun hn => ?_⟩
  rw [mem_of_reachable_eq_ok _ _ h', roots_mark]
  -- The edges are the same, and every reached node is as open as it was.
  refine ((mem_of_reachable_eq_ok _ _ h n).1 hn).of_closed_elsewhere ?_ ?_
  · intro p hp
    have hopen := hp.isOpen
    rw [isOpen_graphOf] at hopen
    rw [isOpen_graphOf, hmentions, get?_definedTypes_mark]
    refine hopen.imp ?_ ?_
    · rintro ⟨t, ht, hignored⟩
      -- A reached type passes no test, so its definition is as it was.
      have hname : hit (.type t.name) = false := by
        rw [name_of_get?_definedTypes ht]
        cases hc : hit (.type p) with
        | false => rfl
        | true => exact absurd ((mem_of_reachable_eq_ok _ _ h p).2 hp) (hunreached p hc)
      refine ⟨_, by rw [ht, Option.map_some], ?_⟩
      rw [markDeclaration_directives, hname, markIf_false]
      exact hignored
    · rintro ⟨hnone, hx⟩
      exact ⟨by rw [hnone, Option.map_none], hx⟩
  · intro p t ht
    rw [mem_successors_graphOf] at ht ⊢
    rwa [hmentions]

end Document

end SchemaView
