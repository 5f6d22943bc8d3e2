/-!
# Maps that remember the order of insertion

The answers of this library list types, tags and exclusions in the order in which they were
first met, so its maps keep that order. An `OrderedMap` is a list of entries with pairwise
distinct keys. Writing to a key that is already there replaces its value and keeps its place;
a new key goes to the end.

The view is `get?`, pinned by `get?_insert`; the order is pinned by `keys_insert`.
-/

namespace SchemaView

/-- A finite map whose entries stay in the order in which their keys were first written. -/
structure OrderedMap (κ : Type u) (β : Type v) where
  /-- Keys with their values, oldest key first. -/
  entries : List (κ × β)
  /-- No key occurs twice. -/
  nodup_keys : (entries.map Prod.fst).Nodup

namespace OrderedMap

/-- The map without entries. -/
def empty {κ : Type u} {β : Type v} : OrderedMap κ β := ⟨[], by simp⟩

/-- The keys, oldest first. -/
def keys {κ : Type u} {β : Type v} (m : OrderedMap κ β) : List κ := m.entries.map Prod.fst

/-- The values, in the order of their keys. -/
def values {κ : Type u} {β : Type v} (m : OrderedMap κ β) : List β := m.entries.map Prod.snd

/-- The number of keys. -/
def size {κ : Type u} {β : Type v} (m : OrderedMap κ β) : Nat := m.entries.length

/-- Applies a function to every value; keys and order stay. -/
def map {κ : Type u} {β : Type v} {γ : Type w} (f : κ → β → γ) (m : OrderedMap κ β) :
    OrderedMap κ γ :=
  ⟨m.entries.map fun e => (e.1, f e.1 e.2), by
    have h := m.nodup_keys
    simpa [List.map_map, Function.comp_def] using h⟩

/-- Keeps the entries that satisfy a test, in their order. -/
def filter {κ : Type u} {β : Type v} (p : κ → β → Bool) (m : OrderedMap κ β) :
    OrderedMap κ β :=
  ⟨m.entries.filter fun e => p e.1 e.2,
    m.nodup_keys.sublist (List.filter_sublist.map Prod.fst)⟩

@[simp] theorem keys_empty {κ : Type u} {β : Type v} : (empty : OrderedMap κ β).keys = [] := rfl

@[simp] theorem keys_map {κ : Type u} {β : Type v} {γ : Type w} (f : κ → β → γ)
    (m : OrderedMap κ β) : (m.map f).keys = m.keys := by
  simp [keys, map, Function.comp_def]

variable {κ : Type u} {β : Type v} [DecidableEq κ]

/-- The value of the first entry with a given key. -/
private def find? (k : κ) : List (κ × β) → Option β
  | [] => none
  | e :: es => if k = e.1 then some e.2 else find? k es

/-- The value written to a key, if there is one. -/
def get? (m : OrderedMap κ β) (k : κ) : Option β := find? k m.entries

private theorem find?_eq_none_iff (k : κ) (es : List (κ × β)) :
    find? k es = none ↔ k ∉ es.map Prod.fst := by
  induction es with
  | nil => simp [find?]
  | cons e es ih =>
    by_cases h : k = e.1
    · simp [find?, h]
    · simp only [find?, h, if_false, ih, List.map_cons, List.mem_cons, false_or]

/-- A key has no value exactly when it is not listed. -/
theorem get?_eq_none_iff (m : OrderedMap κ β) (k : κ) : m.get? k = none ↔ k ∉ m.keys :=
  find?_eq_none_iff k m.entries

private theorem find?_eq_some_iff (k : κ) (v : β) (es : List (κ × β))
    (hnd : (es.map Prod.fst).Nodup) : find? k es = some v ↔ (k, v) ∈ es := by
  induction es with
  | nil => simp [find?]
  | cons e es ih =>
    rw [List.map_cons, List.nodup_cons] at hnd
    by_cases h : k = e.1
    · subst h
      have hv : (e.1, v) ∉ es := fun hmem => hnd.1 (List.mem_map.2 ⟨_, hmem, rfl⟩)
      obtain ⟨k, w⟩ := e
      simp [find?, hv, eq_comm]
    · have hne : (k, v) ≠ e := fun he => h (congrArg Prod.fst he)
      simp [find?, h, hne, ih hnd.2]

/-- A key has a value exactly when it is listed with it. -/
theorem get?_eq_some_iff (m : OrderedMap κ β) (k : κ) (v : β) :
    m.get? k = some v ↔ (k, v) ∈ m.entries :=
  find?_eq_some_iff k v m.entries m.nodup_keys

/-- Keys are looked for without listing them. -/
instance (m : OrderedMap κ β) (k : κ) : Decidable (k ∈ m.keys) :=
  match h : m.get? k with
  | some _ => isTrue (Classical.byContradiction fun hk =>
      nomatch h.symm.trans ((get?_eq_none_iff m k).2 hk))
  | none => isFalse ((get?_eq_none_iff m k).1 h)

/-- Whether a key has a value. -/
def contains (m : OrderedMap κ β) (k : κ) : Bool := decide (k ∈ m.keys)

/-- Writes a value: in place if the key is there, at the end if not. -/
def insert (m : OrderedMap κ β) (k : κ) (v : β) : OrderedMap κ β :=
  if h : k ∈ m.keys then
    ⟨m.entries.map fun e => if k = e.1 then (k, v) else e, by
      have hkeys : (m.entries.map fun e => if k = e.1 then (k, v) else e).map Prod.fst
          = m.entries.map Prod.fst := by
        rw [List.map_map]
        refine List.map_congr_left fun e _ => ?_
        by_cases he : k = e.1 <;> simp [he]
      rw [hkeys]
      exact m.nodup_keys⟩
  else
    ⟨m.entries ++ [(k, v)], by
      have h' : k ∉ m.entries.map Prod.fst := h
      simp only [List.map_append, List.map_cons, List.map_nil]
      refine List.nodup_append.2 ⟨m.nodup_keys, by simp, ?_⟩
      intro a ha b hb
      simp only [List.mem_singleton] at hb
      subst hb
      exact fun hab => h' (hab ▸ ha)⟩

/-- Writes a value unless the key already has one. -/
def insertNew (m : OrderedMap κ β) (k : κ) (v : β) : OrderedMap κ β :=
  if k ∈ m.keys then m else m.insert k v

/-- Replaces the value of a key by one made from it. -/
def alter (m : OrderedMap κ β) (k : κ) (f : Option β → β) : OrderedMap κ β :=
  m.insert k (f (m.get? k))

/-- Writes entries one after the other. -/
def insertMany (m : OrderedMap κ β) (entries : List (κ × β)) : OrderedMap κ β :=
  entries.foldl (fun m e => m.insert e.1 e.2) m

/-- Writes the given entries one after the other into the empty map. -/
def ofList (entries : List (κ × β)) : OrderedMap κ β := empty.insertMany entries

@[simp] theorem get?_empty (k : κ) : (empty : OrderedMap κ β).get? k = none := rfl

/-- Writing keeps the order of the old keys and puts a new key last. -/
theorem keys_insert (m : OrderedMap κ β) (k : κ) (v : β) :
    (m.insert k v).keys = if k ∈ m.keys then m.keys else m.keys ++ [k] := by
  unfold insert
  split
  · simp only [keys, List.map_map]
    refine List.map_congr_left fun e _ => ?_
    by_cases he : k = e.1 <;> simp [he]
  · simp [keys]

private theorem find?_replace (es : List (κ × β)) (k k' : κ) (v : β)
    (h : k ∈ es.map Prod.fst) :
    find? k' (es.map fun e => if k = e.1 then (k, v) else e)
      = if k' = k then some v else find? k' es := by
  induction es with
  | nil => simp at h
  | cons e es ih =>
    by_cases he : k = e.1
    · subst he
      by_cases hk : k' = e.1
      · simp [find?, hk]
      · simp only [List.map_cons, if_true, find?, hk, if_false]
        by_cases hm : e.1 ∈ es.map Prod.fst
        · rw [ih hm, if_neg hk]
        · congr 1
          conv => rhs; rw [← List.map_id es]
          refine List.map_congr_left fun x hx => ?_
          have : e.1 ≠ x.1 := fun hxe => hm (hxe ▸ List.mem_map_of_mem hx)
          simp [this]
    · have hm : k ∈ es.map Prod.fst := by simpa [he] using h
      simp only [List.map_cons, he, if_false, find?, ih hm]
      by_cases hk : k' = k
      · subst hk; simp [he]
      · simp [hk]

private theorem find?_append_new (es : List (κ × β)) (k k' : κ) (v : β)
    (h : k ∉ es.map Prod.fst) :
    find? k' (es ++ [(k, v)]) = if k' = k then some v else find? k' es := by
  induction es with
  | nil => simp [find?]
  | cons e es ih =>
    simp only [List.map_cons, List.mem_cons, not_or] at h
    by_cases hk : k' = k
    · subst hk; simp [find?, h.1, ih h.2]
    · simp [find?, ih h.2, hk]

/-- Reading after writing: the written key has the new value, every other key its old one. -/
theorem get?_insert (m : OrderedMap κ β) (k k' : κ) (v : β) :
    (m.insert k v).get? k' = if k' = k then some v else m.get? k' := by
  unfold insert get?
  split
  · next h => exact find?_replace m.entries k k' v h
  · next h => exact find?_append_new m.entries k k' v h

end OrderedMap

end SchemaView
