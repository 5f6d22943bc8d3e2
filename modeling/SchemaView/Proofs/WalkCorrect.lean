import SchemaView.Proofs.OrderedMap
import SchemaView.TypeGraph.Reachable

/-!
# A walk enters exactly what can be reached

`TypeGraph.reachable` walks level by level and stops after as many levels as the graph has nodes.
Reachability as such is the relation `TypeGraph.Reaches`: the open starts, and every open node that
an edge leads to from a reached one. This file proves that the two agree.

The argument is a frontier invariant, `Walked`: of what was seen, only the last level can have open
successors that were not seen. Each level adds a node, so the bound on levels is never the reason
to stop.

## Key results

- `mem_reachable_iff`: a walk enters a node exactly if it is reached
- `Reaches.mono`: with fewer edges and fewer open nodes no more is reached
-/

namespace SchemaView

open Sdl (Name)

/-! ## Sizes of finite sets -/

private theorem length_lt_of_nodup_of_subset {α : Type} {xs ys : List α} {x : α} (hnd : xs.Nodup)
    (hsub : ∀ y ∈ xs, y ∈ ys) (hx : x ∈ ys) (hnot : x ∉ xs) : xs.length < ys.length := by
  have hle : (x :: xs).length ≤ ys.length :=
    (List.nodup_cons.2 ⟨hnot, hnd⟩).length_le_of_subset (List.cons_subset.2 ⟨hx, hsub⟩)
  rw [List.length_cons] at hle
  omega

namespace NameSet

/-- No name is listed twice. -/
theorem nodup_names (s : NameSet) : s.names.Nodup := by
  refine s.ascending.imp ?_
  intro x y h heq
  subst heq
  exact String.lt_irrefl x h

theorem isEmpty_iff {s : NameSet} : s.isEmpty = true ↔ ∀ x, x ∉ s := by
  simp [isEmpty, mem_def, List.eq_nil_iff_forall_not_mem]

/-- A set that lacks a member of a larger one is smaller. -/
theorem length_lt {s t : NameSet} {x : String} (hsub : ∀ y ∈ s, y ∈ t) (hx : x ∈ t) (hnot : x ∉ s) :
    s.names.length < t.names.length :=
  length_lt_of_nodup_of_subset s.nodup_names hsub hx hnot

end NameSet

namespace TypeGraph

/-- What can be reached from some nodes: those that are open, and every open node that an edge
    leads to from a reached one. -/
inductive Reaches (g : TypeGraph) (starts : List Name) : Name → Prop
  | start {n : Name} (hn : n ∈ starts) (hopen : g.isOpen n = true) : Reaches g starts n
  | step {n t : Name} (hn : Reaches g starts n) (ht : t ∈ g.successors n)
      (hopen : g.isOpen t = true) : Reaches g starts t

variable {g : TypeGraph} {starts : List Name}

/-- Only open nodes are reached. -/
theorem Reaches.isOpen {n : Name} (h : g.Reaches starts n) : g.isOpen n = true := by
  cases h with
  | start _ hopen => exact hopen
  | step _ _ hopen => exact hopen

/-- With fewer edges and fewer open nodes no more is reached. -/
theorem Reaches.mono {g' : TypeGraph} (hopen : ∀ n, g'.isOpen n = true → g.isOpen n = true)
    (hedge : ∀ n t, t ∈ g'.successors n → t ∈ g.successors n) {n : Name}
    (h : g'.Reaches starts n) : g.Reaches starts n := by
  induction h with
  | start hn ho => exact .start hn (hopen _ ho)
  | step _ ht ho ih => exact .step ih (hedge _ _ ht) (hopen _ ho)

/-- Closing nodes that are not reached changes nothing about what is reached. -/
theorem Reaches.of_closed_elsewhere {g' : TypeGraph}
    (hopen : ∀ n, g.Reaches starts n → g'.isOpen n = true)
    (hedge : ∀ n t, t ∈ g.successors n → t ∈ g'.successors n) {n : Name}
    (h : g.Reaches starts n) : g'.Reaches starts n := by
  induction h with
  | start hn ho => exact .start hn (hopen _ (.start hn ho))
  | step hn ht ho ih => exact .step ih (hedge _ _ ht) (hopen _ (.step hn ht ho))

/-! ## One level -/

theorem mem_successors {n t : Name} : t ∈ g.successors n ↔ (n, t) ∈ g.edges.keys := by
  simp [successors, OrderedMap.keys]

theorem mem_keys_of_isOpen {n : Name} (h : g.isOpen n = true) : n ∈ g.nodes.keys := by
  unfold isOpen at h
  rw [OrderedMap.mem_keys_iff]
  cases hn : g.nodes.get? n with
  | none => simp [hn] at h
  | some node => exact ⟨node, rfl⟩

theorem mem_nextLevel {seen level : NameSet} {t : Name} : t ∈ g.nextLevel seen level ↔
    (∃ n ∈ level, t ∈ g.successors n) ∧ g.isOpen t = true ∧ t ∉ seen := by
  rw [nextLevel, NameSet.mem_ofList, List.mem_filter, List.mem_flatMap]
  simp [NameSet.mem_def]

/-! ## The invariant of a walk -/

/-- What a walk has seen and its last level: everything seen is reached, the open starts are seen,
    and only nodes of the last level may have open successors that are not. -/
structure Walked (g : TypeGraph) (starts : List Name) (seen level : NameSet) : Prop where
  reached : ∀ n ∈ seen, g.Reaches starts n
  started : ∀ n ∈ starts, g.isOpen n = true → n ∈ seen
  level_subset : ∀ n ∈ level, n ∈ seen
  settled : ∀ n ∈ seen, n ∉ level → ∀ t ∈ g.successors n, g.isOpen t = true → t ∈ seen

theorem Walked.init (g : TypeGraph) (starts : List Name) :
    Walked g starts (.ofList (starts.filter g.isOpen)) (.ofList (starts.filter g.isOpen)) where
  reached n hn := by
    rw [NameSet.mem_ofList, List.mem_filter] at hn
    exact .start hn.1 hn.2
  started n hn hopen := by
    rw [NameSet.mem_ofList, List.mem_filter]
    exact ⟨hn, hopen⟩
  level_subset n hn := hn
  settled n hn hnot := absurd hn hnot

theorem Walked.next {seen level : NameSet} (h : Walked g starts seen level) :
    Walked g starts (seen.union (g.nextLevel seen level)) (g.nextLevel seen level) where
  reached n hn := by
    rcases NameSet.mem_union.1 hn with hn | hn
    · exact h.reached n hn
    · obtain ⟨⟨p, hp, hsucc⟩, hopen, -⟩ := mem_nextLevel.1 hn
      exact .step (h.reached p (h.level_subset p hp)) hsucc hopen
  started n hn hopen := NameSet.mem_union.2 (Or.inl (h.started n hn hopen))
  level_subset n hn := NameSet.mem_union.2 (Or.inr hn)
  settled n hn hnot t ht hopen := by
    -- A node that is not in the new level was seen before it.
    have hseen : n ∈ seen := (NameSet.mem_union.1 hn).resolve_right hnot
    rw [NameSet.mem_union]
    by_cases hmem : t ∈ seen
    · exact Or.inl hmem
    · by_cases hlevel : n ∈ level
      · exact Or.inr (mem_nextLevel.2 ⟨⟨n, hlevel, ht⟩, hopen, hmem⟩)
      · exact Or.inl (h.settled n hseen hlevel t ht hopen)

/-- Where no open successor is missing, everything that is reached was seen. -/
theorem Walked.mem_iff {seen level : NameSet} (h : Walked g starts seen level)
    (hclosed : ∀ n ∈ level, ∀ t ∈ g.successors n, g.isOpen t = true → t ∈ seen) (n : Name) :
    n ∈ seen ↔ g.Reaches starts n := by
  constructor
  · exact h.reached n
  · intro hn
    induction hn with
    | start hmem hopen => exact h.started _ hmem hopen
    | @step p t _ ht hopen ih =>
      -- The predecessor was seen: in the last level, or before it and is settled.
      by_cases hlevel : p ∈ level
      · exact hclosed p hlevel t ht hopen
      · exact h.settled p ih hlevel t ht hopen

/-! ## The whole walk -/

/-- A walk that may still take as many levels as there are nodes left ends with everything that is
    reached. -/
theorem Walked.mem_walkFrom_iff {fuel : Nat} {seen level : NameSet}
    (h : Walked g starts seen level) (hfuel : g.nodes.size ≤ fuel + seen.names.length) (n : Name) :
    n ∈ g.walkFrom fuel seen level ↔ g.Reaches starts n := by
  have hsub : ∀ m ∈ seen, m ∈ g.nodes.keys := fun m hm => mem_keys_of_isOpen (h.reached m hm).isOpen
  -- Induction on the levels that are left; what was seen grows with every level but the last.
  induction fuel generalizing seen level with
  | zero =>
    -- As many nodes were seen as there are, so none is missing.
    refine h.mem_iff (fun p _ t _ hopen => Classical.byContradiction fun hnot => ?_) n
    have hlt := length_lt_of_nodup_of_subset seen.nodup_names hsub (mem_keys_of_isOpen hopen) hnot
    simp only [OrderedMap.keys, List.length_map, OrderedMap.size] at hlt hfuel
    omega
  | succ fuel ih =>
    simp only [walkFrom]
    split
    · -- There is no new level: all open successors were seen.
      rename_i hempty
      refine h.mem_iff (fun p hp t ht hopen => Classical.byContradiction fun hnot => ?_) n
      exact NameSet.isEmpty_iff.1 hempty t (mem_nextLevel.2 ⟨⟨p, hp, ht⟩, hopen, hnot⟩)
    · -- The new level adds a node, so one level less is enough for the rest.
      rename_i hsome
      obtain ⟨t, ht⟩ : ∃ t, t ∈ g.nextLevel seen level := by
        rw [NameSet.isEmpty_iff] at hsome
        exact Classical.not_forall_not.1 hsome
      have hlt : seen.names.length < (seen.union (g.nextLevel seen level)).names.length :=
        NameSet.length_lt (fun y hy => NameSet.mem_union.2 (Or.inl hy))
          (NameSet.mem_union.2 (Or.inr ht)) (mem_nextLevel.1 ht).2.2
      exact ih h.next (by omega)
        (fun m hm => mem_keys_of_isOpen (h.next.reached m hm).isOpen)

/-- A walk enters a node exactly if it is reached from the starts. -/
theorem mem_reachable_iff (g : TypeGraph) (starts : List Name) (n : Name) :
    n ∈ g.reachable starts ↔ g.Reaches starts n :=
  (Walked.init g starts).mem_walkFrom_iff (Nat.le_add_right _ _) n

end TypeGraph

end SchemaView
