/-!
# Answers of computations that may fail

When a computation that may fail has an answer, step by step: a bind answers if both of its steps
do, and a traversal of a list whose steps all answer is the traversal without failures. And which
failure a computation has: of several steps the first one that fails decides.
-/

namespace SchemaView

variable {ε α β : Type}

/-- One step after another answers exactly if both do. -/
theorem bind_eq_ok_iff {x : Except ε α} {f : α → Except ε β} {b : β} :
    (x >>= f) = .ok b ↔ ∃ a, x = .ok a ∧ f a = .ok b := by
  cases x <;> simp [bind, Except.bind]

theorem pure_eq_ok_iff {a b : α} : (pure a : Except ε α) = .ok b ↔ a = b := by
  simp [pure, Except.pure]

/-- A list whose elements all have an image is mapped to the images. -/
theorem mapM_eq_ok {f : α → Except ε β} {g : α → β} {xs : List α}
    (h : ∀ x ∈ xs, f x = .ok (g x)) : xs.mapM f = .ok (xs.map g) := by
  induction xs with
  | nil => rfl
  | cons x xs ih =>
    have hrest := ih fun y hy => h y (List.mem_cons_of_mem _ hy)
    rw [List.mapM_cons, h x List.mem_cons_self, hrest]
    rfl

/-- Where a traversal answers, every element has an answer in it, and it has no other answers. -/
theorem mem_of_mapM_eq_ok {f : α → Except ε β} {xs : List α} {ys : List β}
    (h : xs.mapM f = .ok ys) :
    (∀ x ∈ xs, ∃ y ∈ ys, f x = .ok y) ∧ ∀ y ∈ ys, ∃ x ∈ xs, f x = .ok y := by
  induction xs generalizing ys with
  | nil =>
    cases h
    exact ⟨fun x hx => absurd hx List.not_mem_nil, fun y hy => absurd hy List.not_mem_nil⟩
  | cons x xs ih =>
    rw [List.mapM_cons] at h
    obtain ⟨z, hz, h⟩ := bind_eq_ok_iff.1 h
    obtain ⟨zs, hzs, h⟩ := bind_eq_ok_iff.1 h
    cases h
    obtain ⟨hanswered, hanswers⟩ := ih hzs
    constructor
    · intro a ha
      rcases List.mem_cons.1 ha with rfl | ha
      · exact ⟨z, List.mem_cons_self, hz⟩
      · obtain ⟨y, hy, hay⟩ := hanswered a ha
        exact ⟨y, List.mem_cons_of_mem _ hy, hay⟩
    · intro y hy
      rcases List.mem_cons.1 hy with rfl | hy
      · exact ⟨x, List.mem_cons_self, hz⟩
      · obtain ⟨a, ha, hay⟩ := hanswers y hy
        exact ⟨a, List.mem_cons_of_mem _ ha, hay⟩

/-- A list whose elements all have a verdict is filtered by the verdicts. -/
theorem filterM_eq_ok {f : α → Except ε Bool} {p : α → Bool} {xs : List α}
    (h : ∀ x ∈ xs, f x = .ok (p x)) : xs.filterM f = .ok (xs.filter p) := by
  -- What was kept so far is collected in reverse.
  have key : ∀ kept : List α, xs.filterAuxM f kept = .ok ((xs.filter p).reverse ++ kept) := by
    induction xs with
    | nil => intro kept; rfl
    | cons x xs ih =>
      intro kept
      have hrest := ih fun y hy => h y (List.mem_cons_of_mem _ hy)
      rw [List.filterAuxM, h x List.mem_cons_self]
      cases hx : p x <;> simp [bind, Except.bind, hrest, hx]
  rw [List.filterM, key []]
  simp [bind, Except.bind, pure, Except.pure]

/-! ## Failures -/

/-- The failure of a computation, if it fails. -/
def failure? : Except ε α → Option ε
  | .error e => some e
  | .ok _ => none

theorem failure?_eq_some_iff {x : Except ε α} {e : ε} : failure? x = some e ↔ x = .error e := by
  cases x <;> simp [failure?]

theorem failure?_eq_none_iff {x : Except ε α} : failure? x = none ↔ ∃ a, x = .ok a := by
  cases x <;> simp [failure?]

/-- Of two steps the first failure counts, if what the second one fails with does not depend on the
    answer of the first. -/
theorem failure?_bind {x : Except ε α} {f : α → Except ε β} {e? : Option ε}
    (h : ∀ a, failure? (f a) = e?) : failure? (x >>= f) = (failure? x).or e? := by
  cases x with
  | error e => rfl
  | ok a => exact h a

/-- What is made from an answer cannot fail any more. -/
theorem failure?_bind_pure (x : Except ε α) (f : α → β) :
    failure? (x >>= fun a => pure (f a)) = failure? x := by
  cases x <;> rfl

/-- Of the failures of a traversal the first one counts. -/
theorem failure?_mapM {f : α → Except ε β} {xs : List α} :
    failure? (xs.mapM f) = xs.findSome? fun x => failure? (f x) := by
  induction xs with
  | nil => rfl
  | cons x xs ih =>
    rw [List.mapM_cons, List.findSome?_cons, ← ih]
    cases f x with
    | error e => rfl
    | ok b => cases xs.mapM f <;> rfl

/-- A traversal answers exactly if all of its steps do. -/
theorem exists_mapM_eq_ok_iff {f : α → Except ε β} {xs : List α} :
    (∃ ys, xs.mapM f = .ok ys) ↔ ∀ x ∈ xs, ∃ y, f x = .ok y := by
  rw [← failure?_eq_none_iff, failure?_mapM, List.findSome?_eq_none_iff]
  simp only [failure?_eq_none_iff]

/-- A traversal fails exactly with the first of its steps that does. -/
theorem mapM_eq_error_iff {f : α → Except ε β} {xs : List α} {e : ε} :
    xs.mapM f = .error e ↔ ∃ before x after, xs = before ++ x :: after ∧
      (∀ y ∈ before, ∃ b, f y = .ok b) ∧ f x = .error e := by
  rw [← failure?_eq_some_iff, failure?_mapM, List.findSome?_eq_some_iff]
  simp only [failure?_eq_some_iff, failure?_eq_none_iff, and_comm]

end SchemaView
