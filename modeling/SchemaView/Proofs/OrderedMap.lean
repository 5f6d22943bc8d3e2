import SchemaView.OrderedMap

/-!
# What an ordered map holds

Lemmas about the keys, values and entries of an `OrderedMap`: which keys are there after a run of
writes, how reading commutes with `map`, and that maps with equal entries are equal. Every view
on a document is built by such runs of writes.
-/

namespace SchemaView.OrderedMap

variable {κ : Type u} {β : Type v} {γ : Type w}

/-- The entries are all that a map holds. -/
theorem ext_entries {m n : OrderedMap κ β} (h : m.entries = n.entries) : m = n := by
  cases m
  cases n
  simpa using h

@[simp] theorem entries_map (f : κ → β → γ) (m : OrderedMap κ β) :
    (m.map f).entries = m.entries.map fun e => (e.1, f e.1 e.2) := rfl

@[simp] theorem entries_filter (p : κ → β → Bool) (m : OrderedMap κ β) :
    (m.filter p).entries = m.entries.filter fun e => p e.1 e.2 := rfl

/-- A change of values that reads no key is a change of the list of values. -/
theorem values_map_const (f : β → γ) (m : OrderedMap κ β) :
    (m.map fun _ v => f v).values = m.values.map f := by
  simp [values, Function.comp_def]

variable [DecidableEq κ]

/-! ## Reading -/

/-- The keys are those that have a value. -/
theorem mem_keys_iff (m : OrderedMap κ β) (k : κ) : k ∈ m.keys ↔ ∃ v, m.get? k = some v := by
  rw [← Option.isSome_iff_exists, Option.isSome_iff_ne_none, Ne, get?_eq_none_iff,
    Classical.not_not]

/-- The values are those of the keys. -/
theorem mem_values_iff (m : OrderedMap κ β) (v : β) : v ∈ m.values ↔ ∃ k, m.get? k = some v := by
  simp only [values, List.mem_map, Prod.exists, get?_eq_some_iff, exists_eq_right]

@[simp] theorem contains_iff (m : OrderedMap κ β) (k : κ) : m.contains k = true ↔ k ∈ m.keys := by
  simp [contains]

/-- Reading a changed map is changing what is read. -/
theorem get?_map (f : κ → β → γ) (m : OrderedMap κ β) (k : κ) :
    (m.map f).get? k = (m.get? k).map (f k) := by
  cases h : m.get? k with
  | none =>
    rw [get?_eq_none_iff] at h
    rw [Option.map_none, get?_eq_none_iff, keys_map]
    exact h
  | some v =>
    rw [get?_eq_some_iff] at h
    rw [Option.map_some, get?_eq_some_iff, entries_map]
    exact List.mem_map.2 ⟨(k, v), h, rfl⟩

/-- Reading a filtered map is filtering what is read. -/
theorem get?_filter (p : κ → β → Bool) (m : OrderedMap κ β) (k : κ) :
    (m.filter p).get? k = (m.get? k).filter (p k) := by
  apply Option.ext
  intro v
  rw [get?_eq_some_iff, entries_filter, List.mem_filter, Option.filter_eq_some_iff,
    get?_eq_some_iff]

@[simp] theorem contains_map (f : κ → β → γ) (m : OrderedMap κ β) (k : κ) :
    (m.map f).contains k = m.contains k := by
  rw [Bool.eq_iff_iff, contains_iff, contains_iff, keys_map]

/-! ## Writing -/

/-- The keys after a write. -/
theorem mem_keys_insert (m : OrderedMap κ β) (k k' : κ) (v : β) :
    k' ∈ (m.insert k v).keys ↔ k' = k ∨ k' ∈ m.keys := by
  rw [mem_keys_iff, get?_insert, mem_keys_iff]
  by_cases h : k' = k <;> simp [h]

/-- The keys after a write that spares old values. -/
theorem mem_keys_insertNew (m : OrderedMap κ β) (k k' : κ) (v : β) :
    k' ∈ (m.insertNew k v).keys ↔ k' = k ∨ k' ∈ m.keys := by
  unfold insertNew
  split
  · rename_i h
    constructor
    · exact Or.inr
    · rintro (rfl | h')
      · exact h
      · exact h'
  · exact mem_keys_insert m k k' v

/-- Reading after a write that spares old values. -/
theorem get?_insertNew (m : OrderedMap κ β) (k k' : κ) (v : β) :
    (m.insertNew k v).get? k' = if k' = k ∧ k ∉ m.keys then some v else m.get? k' := by
  unfold insertNew
  by_cases h : k ∈ m.keys <;> simp [h, get?_insert]

/-- A new key is written at the end. -/
theorem entries_insert_of_not_mem (m : OrderedMap κ β) (k : κ) (v : β) (h : k ∉ m.keys) :
    (m.insert k v).entries = m.entries ++ [(k, v)] := by
  simp [insert, h]

/-- The keys after a run of writes. -/
theorem mem_keys_insertMany (entries : List (κ × β)) (m : OrderedMap κ β) (k : κ) :
    k ∈ (m.insertMany entries).keys ↔ k ∈ m.keys ∨ k ∈ entries.map Prod.fst := by
  unfold insertMany
  induction entries generalizing m with
  | nil => simp
  | cons e es ih =>
    rw [List.foldl_cons, ih, mem_keys_insert, List.map_cons, List.mem_cons]
    constructor
    · rintro ((h | h) | h)
      · exact Or.inr (Or.inl h)
      · exact Or.inl h
      · exact Or.inr (Or.inr h)
    · rintro (h | h | h)
      · exact Or.inl (Or.inr h)
      · exact Or.inl (Or.inl h)
      · exact Or.inr h

/-- The keys of a map that is written from a list. -/
theorem mem_keys_ofList (entries : List (κ × β)) (k : κ) :
    k ∈ (ofList entries).keys ↔ k ∈ entries.map Prod.fst := by
  simp [ofList, mem_keys_insertMany]

/-- Every value of a map was there before a write or is the written one. -/
private theorem get?_insertMany_cases (entries : List (κ × β)) (m : OrderedMap κ β) (k : κ) (v : β)
    (h : (m.insertMany entries).get? k = some v) : m.get? k = some v ∨ (k, v) ∈ entries := by
  unfold insertMany at h
  induction entries generalizing m with
  | nil => exact Or.inl h
  | cons e es ih =>
    rcases ih _ h with h' | h'
    · rw [get?_insert] at h'
      split at h'
      · rename_i hk
        cases h'
        subst hk
        exact Or.inr List.mem_cons_self
      · exact Or.inl h'
    · exact Or.inr (List.mem_cons_of_mem _ h')

/-- Every entry of a map that is written from a list is in the list. -/
theorem mem_of_get?_ofList (entries : List (κ × β)) (k : κ) (v : β)
    (h : (ofList entries).get? k = some v) : (k, v) ∈ entries := by
  rcases get?_insertMany_cases entries empty k v h with h' | h'
  · simp at h'
  · exact h'

/-- A map that is written from a list in which no key has two values has the entries of the list. -/
theorem get?_ofList_of_functional {entries : List (κ × β)}
    (h : ∀ k v w, (k, v) ∈ entries → (k, w) ∈ entries → v = w) {k : κ} {v : β} :
    (ofList entries).get? k = some v ↔ (k, v) ∈ entries := by
  refine ⟨mem_of_get?_ofList entries k v, fun hv => ?_⟩
  have hkey : k ∈ (ofList entries).keys :=
    (mem_keys_ofList entries k).2 (List.mem_map.2 ⟨(k, v), hv, rfl⟩)
  obtain ⟨w, hw⟩ := (mem_keys_iff _ _).1 hkey
  rw [h k v w hv (mem_of_get?_ofList entries k w hw)]
  exact hw

/-- A map that is written from a list of distinct keys does not depend on the order of the list, as
    far as values are concerned. -/
theorem get?_ofList_of_perm {xs ys : List (κ × β)} (h : ys.Perm xs)
    (hnd : (xs.map Prod.fst).Nodup) (k : κ) : (ofList ys).get? k = (ofList xs).get? k := by
  have hunique : ∀ k v w, (k, v) ∈ xs → (k, w) ∈ xs → v = w := by
    intro k v w hv hw
    -- The list is the entries of a map, which has one value for each key.
    have hget := (get?_eq_some_iff ⟨xs, hnd⟩ k v).2 hv
    rw [(get?_eq_some_iff ⟨xs, hnd⟩ k w).2 hw] at hget
    exact (Option.some.inj hget).symm
  have hunique' : ∀ k v w, (k, v) ∈ ys → (k, w) ∈ ys → v = w := fun k v w hv hw =>
    hunique k v w (h.mem_iff.1 hv) (h.mem_iff.1 hw)
  apply Option.ext
  intro v
  rw [get?_ofList_of_functional hunique, get?_ofList_of_functional hunique', h.mem_iff]

/-- Of a run of writes the last one to a key counts, and without one the old value stays. -/
private theorem get?_insertMany_iff (entries : List (κ × β)) (m : OrderedMap κ β) (k : κ) (v : β) :
    (m.insertMany entries).get? k = some v ↔
      (∃ before after, entries = before ++ (k, v) :: after ∧ k ∉ after.map Prod.fst) ∨
        (k ∉ entries.map Prod.fst ∧ m.get? k = some v) := by
  unfold insertMany
  induction entries generalizing m with
  | nil => simp
  | cons e es ih =>
    rw [List.foldl_cons, ih, get?_insert, List.map_cons, List.mem_cons, not_or]
    constructor
    · rintro (⟨before, after, rfl, hafter⟩ | ⟨hes, hget⟩)
      · exact Or.inl ⟨e :: before, after, rfl, hafter⟩
      · split at hget
        · rename_i hk
          cases hget
          exact Or.inl ⟨[], es, by rw [hk]; rfl, hes⟩
        · rename_i hk
          exact Or.inr ⟨⟨hk, hes⟩, hget⟩
    · rintro (⟨before, after, heq, hafter⟩ | ⟨⟨hk, hes⟩, hget⟩)
      · -- The write that counts is the first one or one of the others.
        cases before with
        | nil =>
          obtain ⟨rfl, rfl⟩ := List.cons.inj heq
          exact Or.inr ⟨hafter, by simp⟩
        | cons e' before =>
          obtain ⟨-, rfl⟩ := List.cons.inj heq
          exact Or.inl ⟨before, after, rfl, hafter⟩
      · exact Or.inr ⟨hes, by rwa [if_neg hk]⟩

/-- Of the elements that a map is written from, the last one with a key counts. -/
theorem get?_ofList_map_iff {α : Type w} {key : α → κ} {value : α → β} {xs : List α} {k : κ}
    {v : β} : (ofList (xs.map fun x => (key x, value x))).get? k = some v ↔
      ∃ before x after, xs = before ++ x :: after ∧ key x = k ∧ value x = v ∧
        ∀ y ∈ after, key y ≠ k := by
  rw [ofList, get?_insertMany_iff]
  simp only [get?_empty, reduceCtorEq, and_false, or_false, List.map_eq_append_iff,
    List.map_eq_cons_iff]
  constructor
  · rintro ⟨_, _, ⟨before, _, rfl, rfl, x, after, rfl, heq, rfl⟩, hafter⟩
    rw [Prod.mk.injEq] at heq
    refine ⟨before, x, after, rfl, heq.1, heq.2, fun y hy hk => hafter ?_⟩
    exact List.mem_map.2 ⟨_, List.mem_map_of_mem hy, hk⟩
  · rintro ⟨before, x, after, rfl, rfl, rfl, hafter⟩
    refine ⟨_, _, ⟨before, _, rfl, rfl, x, after, rfl, rfl, rfl⟩, fun hk => ?_⟩
    obtain ⟨_, he, hk⟩ := List.mem_map.1 hk
    obtain ⟨y, hy, rfl⟩ := List.mem_map.1 he
    exact hafter y hy hk

/-! ## Writing and changing values -/

/-- A change of values commutes with a write. -/
theorem map_insert (f : κ → β → γ) (m : OrderedMap κ β) (k : κ) (v : β) :
    (m.insert k v).map f = (m.map f).insert k (f k v) := by
  apply ext_entries
  -- A key that is there keeps its place in both maps, a new one goes last in both.
  by_cases h : k ∈ m.keys
  · have h' : k ∈ (m.map f).keys := by rwa [keys_map]
    simp only [insert, h, h', dif_pos, entries_map, List.map_map]
    refine List.map_congr_left fun e _ => ?_
    by_cases he : k = e.1 <;> simp [he]
  · have h' : k ∉ (m.map f).keys := by rwa [keys_map]
    rw [entries_insert_of_not_mem _ _ _ h', entries_map, entries_insert_of_not_mem _ _ _ h]
    simp

/-- A change of values commutes with a run of writes. -/
theorem map_ofList (f : κ → β → γ) (entries : List (κ × β)) :
    (ofList entries).map f = ofList (entries.map fun e => (e.1, f e.1 e.2)) := by
  -- The induction is on the writes that are left, so the map that is written to is arbitrary.
  have key : ∀ m : OrderedMap κ β, (m.insertMany entries).map f
      = (m.map f).insertMany (entries.map fun e => (e.1, f e.1 e.2)) := by
    unfold insertMany
    induction entries with
    | nil => simp
    | cons e es ih =>
      intro m
      rw [List.foldl_cons, ih, map_insert, List.map_cons, List.foldl_cons]
  exact key empty

end SchemaView.OrderedMap
