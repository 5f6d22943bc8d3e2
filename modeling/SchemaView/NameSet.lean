/-!
# Finite sets of names

A set of tags, subgraphs or type names. The names are kept in strictly ascending order of
code points, which is also the order in which every answer lists them, so two sets with the
same members are equal.

The view is `∈`, pinned by `mem_ofList`, `mem_insert` and `mem_union`; `ext` says that nothing
else counts.
-/

namespace SchemaView

/-- A finite set of names, listed in strictly ascending order. -/
structure NameSet where
  /-- The members, in ascending order of code points. -/
  names : List String
  /-- Strictly ascending, hence without repetition. -/
  ascending : names.Pairwise (· < ·)

namespace NameSet

instance : Membership String NameSet := ⟨fun s x => x ∈ s.names⟩

instance (s : NameSet) (x : String) : Decidable (x ∈ s) :=
  inferInstanceAs (Decidable (x ∈ s.names))

theorem mem_def {s : NameSet} {x : String} : x ∈ s ↔ x ∈ s.names := Iff.rfl

/-- The set without members. -/
def empty : NameSet := ⟨[], .nil⟩

/-- Whether the set has no member. -/
def isEmpty (s : NameSet) : Bool := s.names.isEmpty

/-- Puts a name in its place of an ascending list, unless it is there already. -/
private def place (x : String) : List String → List String
  | [] => [x]
  | y :: ys => if x < y then x :: y :: ys else if x = y then y :: ys else y :: place x ys

private theorem mem_place {x z : String} {ys : List String} :
    z ∈ place x ys ↔ z = x ∨ z ∈ ys := by
  induction ys with
  | nil => simp [place]
  | cons y ys ih =>
    unfold place
    split
    · simp
    · split
      · next h => subst h; simp
      · simp only [List.mem_cons, ih]; grind

private theorem lt_of_not_lt_of_ne {x y : String} (h : ¬ x < y) (hne : x ≠ y) : y < x := by
  have hle : y ≤ x := String.not_lt.1 h
  by_cases hlt : y < x
  · exact hlt
  · exact absurd (String.le_antisymm (String.not_lt.1 hlt) hle) hne

private theorem place_ascending {x : String} {ys : List String} (h : ys.Pairwise (· < ·)) :
    (place x ys).Pairwise (· < ·) := by
  induction ys with
  | nil => simp [place]
  | cons y ys ih =>
    rw [List.pairwise_cons] at h
    unfold place
    split
    · next hxy =>
      refine List.pairwise_cons.2 ⟨fun z hz => ?_, List.pairwise_cons.2 h⟩
      rcases List.mem_cons.1 hz with rfl | hz
      · exact hxy
      · exact String.lt_trans hxy (h.1 z hz)
    · next hxy =>
      split
      · exact List.pairwise_cons.2 h
      · next hne =>
        refine List.pairwise_cons.2 ⟨fun z hz => ?_, ih h.2⟩
        rcases mem_place.1 hz with rfl | hz
        · exact lt_of_not_lt_of_ne hxy hne
        · exact h.1 z hz

/-- Adds a name. -/
def insert (s : NameSet) (x : String) : NameSet := ⟨place x s.names, place_ascending s.ascending⟩

/-- The set of the names of a list. -/
def ofList : List String → NameSet
  | [] => empty
  | x :: xs => (ofList xs).insert x

/-- All members of both sets. -/
def union (s t : NameSet) : NameSet := t.names.foldl insert s

/-- Whether the two sets share a member. -/
def meets (s t : NameSet) : Bool := s.names.any fun x => decide (x ∈ t)

@[simp] theorem not_mem_empty (x : String) : x ∉ empty := by simp [mem_def, empty]

@[simp] theorem mem_insert {s : NameSet} {x z : String} : z ∈ s.insert x ↔ z = x ∨ z ∈ s :=
  mem_place

@[simp] theorem mem_ofList {xs : List String} {z : String} : z ∈ ofList xs ↔ z ∈ xs := by
  induction xs with
  | nil => simp [ofList]
  | cons x xs ih => simp [ofList, ih]

@[simp] theorem mem_union {s t : NameSet} {z : String} : z ∈ s.union t ↔ z ∈ s ∨ z ∈ t := by
  have key : ∀ (xs : List String) (u : NameSet), z ∈ xs.foldl insert u ↔ z ∈ u ∨ z ∈ xs := by
    intro xs
    induction xs with
    | nil => simp
    | cons x xs ih =>
      intro u
      rw [List.foldl_cons, ih]
      simp only [mem_insert, List.mem_cons]
      grind
  exact key t.names s

theorem mem_foldl_union {sets : List NameSet} {s : NameSet} {x : String} :
    x ∈ sets.foldl union s ↔ x ∈ s ∨ ∃ t ∈ sets, x ∈ t := by
  induction sets generalizing s with
  | nil => simp
  | cons t sets ih => simp only [List.foldl_cons, ih, mem_union, List.mem_cons,
      exists_eq_or_imp, or_assoc]

/-- Two sets share a member exactly when some name is in both. -/
theorem meets_iff {s t : NameSet} : s.meets t = true ↔ ∃ x, x ∈ s ∧ x ∈ t := by
  simp [meets, mem_def]

/-- Sets with the same members are equal. -/
theorem ext {s t : NameSet} (h : ∀ x, x ∈ s ↔ x ∈ t) : s = t := by
  obtain ⟨xs, hxs⟩ := s
  obtain ⟨ys, hys⟩ := t
  have key : xs = ys := by
    induction xs generalizing ys with
    | nil =>
      cases ys with
      | nil => rfl
      | cons y ys => exact absurd ((h y).2 (by simp [mem_def])) (by simp [mem_def])
    | cons x xs ih =>
      cases ys with
      | nil => exact absurd ((h x).1 (by simp [mem_def])) (by simp [mem_def])
      | cons y ys =>
        simp only [mem_def] at h
        rw [List.pairwise_cons] at hxs hys
        have hxy : x = y := by
          rcases List.mem_cons.1 ((h x).1 (by simp)) with hx | hx
          · exact hx
          · rcases List.mem_cons.1 ((h y).2 (by simp)) with hy | hy
            · exact hy.symm
            · exact absurd (String.lt_trans (hxs.1 y hy) (hys.1 x hx)) (String.lt_irrefl x)
        subst hxy
        have htail : ∀ z, z ∈ xs ↔ z ∈ ys := by
          intro z
          constructor
          · intro hz
            rcases List.mem_cons.1 ((h z).1 (by simp [hz])) with rfl | hz'
            · exact absurd (hxs.1 _ hz) (String.lt_irrefl _)
            · exact hz'
          · intro hz
            rcases List.mem_cons.1 ((h z).2 (by simp [hz])) with rfl | hz'
            · exact absurd (hys.1 _ hz) (String.lt_irrefl _)
            · exact hz'
        rw [ih hxs.2 ys hys.2 htail]
  subst key
  rfl

end NameSet

end SchemaView
