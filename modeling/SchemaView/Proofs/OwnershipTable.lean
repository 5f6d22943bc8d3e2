import Mathlib.Data.List.Basic
import SchemaView.Proofs.CoordinateText
import SchemaView.Proofs.WalkCorrect
import SchemaView.Table

/-!
# The ownership table loses nothing

Who owns what is one relation between elements and subgraphs. It is kept as a map, and shown as a
table with a row for each pair, as the list of what a subgraph owns, and as the list of all
subgraphs. The rows come from two nested enumerations in ascending order, first of the elements and
then of the owners of one; the other two lists are read off the map. Here all of them are shown to
be the same relation, and the map to be what the rows say, apart from elements without owners.

## Key results

- `ascending_pairs`, `mem_pairs_iff`: the two nested enumerations
- `get?_ofPairs`: the map that pairs give back
- `table_eq_ok`, `table_eq_error`: when there is a table
- `table_lossless`: the table, the lists and the map as one relation
-/

namespace SchemaView

open Sdl (Name)

namespace Ownership

/-! ## The pairs of a map -/

/-- The owners that are listed for a text; a text that is not listed has none. -/
def listed (o : Ownership) (text : String) : NameSet := (o.get? text).getD .empty

theorem mem_listed_iff {o : Ownership} {text subgraph : String} :
    subgraph ∈ o.listed text ↔ ∃ owners, o.get? text = some owners ∧ subgraph ∈ owners := by
  rw [listed]
  cases o.get? text <;> simp

/-- Elements with their owners: ascending by element, then by owner. -/
def pairs (o : Ownership) : List (String × String) :=
  (NameSet.ofList o.keys).names.flatMap fun text =>
    (o.listed text).names.map fun subgraph => (text, subgraph)

/-- The order of the rows: by element, and of one element by owner. -/
abbrev RowOrder : String × String → String × String → Prop := Prod.Lex (· < ·) (· < ·)

/-- No pair comes twice, and each comes behind all smaller ones. -/
theorem ascending_pairs (o : Ownership) : o.pairs.Pairwise RowOrder := by
  rw [pairs, List.pairwise_flatMap]
  constructor
  · intro text _
    rw [List.pairwise_map]
    exact (NameSet.ascending _).imp fun h => Prod.Lex.right _ h
  · refine (NameSet.ascending _).imp fun hlt p hp q hq => ?_
    obtain ⟨_, -, rfl⟩ := List.mem_map.1 hp
    obtain ⟨_, -, rfl⟩ := List.mem_map.1 hq
    exact Prod.Lex.left _ _ hlt

theorem mem_pairs_iff {o : Ownership} {text subgraph : String} :
    (text, subgraph) ∈ o.pairs ↔ ∃ owners, o.get? text = some owners ∧ subgraph ∈ owners := by
  rw [← mem_listed_iff]
  simp only [pairs, List.mem_flatMap, List.mem_map, Prod.mk.injEq]
  constructor
  · rintro ⟨text, -, subgraph, howner, rfl, rfl⟩
    exact howner
  · intro howner
    obtain ⟨owners, hget, -⟩ := mem_listed_iff.1 howner
    have hkey : text ∈ o.keys := (OrderedMap.mem_keys_iff _ _).2 ⟨owners, hget⟩
    exact ⟨text, NameSet.mem_ofList.2 hkey, subgraph, howner, rfl, rfl⟩

/-! ## Back to a map -/

/-- Adds an owner to those of an element. -/
def addPair (o : Ownership) (pair : String × String) : Ownership :=
  o.alter pair.1 fun owners? => (owners?.getD .empty).insert pair.2

/-- The map in which elements have the owners of their pairs. -/
def ofPairs (pairs : List (String × String)) : Ownership := pairs.foldl addPair .empty

/-- One pair adds one owner to one element. -/
theorem mem_listed_addPair {o : Ownership} {pair : String × String} {text subgraph : String} :
    subgraph ∈ (o.addPair pair).listed text ↔
      subgraph ∈ o.listed text ∨ (text, subgraph) = pair := by
  rw [listed, addPair, OrderedMap.alter, OrderedMap.get?_insert]
  by_cases hkey : text = pair.1
  · rw [if_pos hkey, Option.getD_some, NameSet.mem_insert, Prod.ext_iff, ← hkey, or_comm]
    simp [listed]
  · simp [hkey, Prod.ext_iff, listed]

/-- What a map lists after some pairs were added. -/
theorem mem_listed_foldl (pairs : List (String × String)) {o : Ownership}
    {text subgraph : String} : subgraph ∈ (pairs.foldl addPair o).listed text ↔
      subgraph ∈ o.listed text ∨ (text, subgraph) ∈ pairs := by
  induction pairs generalizing o with
  | nil => simp
  | cons pair pairs ih => rw [List.foldl_cons, ih, mem_listed_addPair, List.mem_cons, or_assoc]

theorem mem_keys_foldl (pairs : List (String × String)) {o : Ownership} {text : String} :
    text ∈ (pairs.foldl addPair o).keys ↔ text ∈ o.keys ∨ text ∈ pairs.map Prod.fst := by
  induction pairs generalizing o with
  | nil => simp
  | cons pair pairs ih =>
    rw [List.foldl_cons, ih, addPair, OrderedMap.alter, OrderedMap.mem_keys_insert, List.map_cons,
      List.mem_cons]
    grind

/-- The pairs of a map give it back, apart from elements without owners. -/
theorem get?_ofPairs (o : Ownership) (text : String) :
    (ofPairs o.pairs).get? text = (o.filter fun _ owners => !owners.isEmpty).get? text := by
  have hlisted : ∀ subgraph, subgraph ∈ (ofPairs o.pairs).listed text ↔
      ∃ owners, o.get? text = some owners ∧ subgraph ∈ owners := by
    intro subgraph
    rw [ofPairs, mem_listed_foldl, mem_pairs_iff, mem_listed_iff, OrderedMap.get?_empty]
    simp
  have hkey : text ∈ (ofPairs o.pairs).keys ↔
      ∃ owners, o.get? text = some owners ∧ ∃ subgraph, subgraph ∈ owners := by
    rw [ofPairs, mem_keys_foldl, OrderedMap.keys_empty, List.mem_map]
    simp only [List.not_mem_nil, false_or, Prod.exists, exists_and_right, exists_eq_right,
      mem_pairs_iff]
    constructor
    · rintro ⟨s, owners, hget, hs⟩
      exact ⟨owners, hget, s, hs⟩
    · rintro ⟨owners, hget, s, hs⟩
      exact ⟨s, owners, hget, hs⟩
  rw [OrderedMap.get?_filter]
  by_cases howned : text ∈ (ofPairs o.pairs).keys
  · -- The element is in a pair, so it is listed in both maps, with the same owners.
    obtain ⟨found, hfound⟩ := (OrderedMap.mem_keys_iff _ _).1 howned
    obtain ⟨owners, hget, subgraph, hs⟩ := hkey.1 howned
    have hsame : found = owners := by
      apply NameSet.ext
      intro x
      simpa [listed, hfound, hget] using hlisted x
    have hsome : owners.isEmpty = false := by
      rw [Bool.eq_false_iff, Ne, NameSet.isEmpty_iff]
      exact fun h => h subgraph hs
    rw [hfound, hget, hsame, Option.filter_some, hsome]
    rfl
  · -- It is not listed, or listed without owners, and falls away.
    rw [(OrderedMap.get?_eq_none_iff _ _).2 howned]
    cases hget : o.get? text with
    | none => rfl
    | some owners =>
      have hempty : owners.isEmpty = true := by
        rw [NameSet.isEmpty_iff]
        exact fun subgraph hs => howned (hkey.2 ⟨owners, hget, subgraph, hs⟩)
      rw [Option.filter_some, hempty]
      rfl

/-! ## The table -/

/-- The columns of the table. -/
def tableColumns : List String := ["coordinate", "type_name", "member_name", "subgraph"]

/-- The row for an element and an owner of it. -/
def row (c : Coordinate) (subgraph : String) : List (Option String) :=
  [some c.render, some c.typeName, c.memberName?, some subgraph]

/-- Where all keys are coordinates, there is a table, with one row for each pair. -/
theorem table_eq_ok {o : Ownership} (h : ∀ text ∈ o.keys, IsCoordinateText text) :
    ∃ read : String → Coordinate,
      (∀ text ∈ o.keys, (read text).WellNamed ∧ (read text).render = text) ∧
      o.table = .ok ⟨tableColumns, o.pairs.map fun p => row (read p.1) p.2⟩ := by
  let read (text : String) : Coordinate := (Coordinate.parse? text).getD (.type text)
  have hread : ∀ text ∈ o.keys, Coordinate.parse text = .ok (read text) := by
    intro text htext
    obtain ⟨c, hc⟩ := Coordinate.exists_parse?_iff.2 (h text htext)
    simp only [Coordinate.parse, read, hc, Option.getD_some]
  have hrender : ∀ text ∈ o.keys, (read text).WellNamed ∧ (read text).render = text :=
    fun text htext => Coordinate.parse_eq_ok_iff.1 (hread text htext)
  refine ⟨read, hrender, ?_⟩
  have hsorted : ∀ text ∈ (NameSet.ofList o.keys).names, text ∈ o.keys := fun text htext =>
    NameSet.mem_ofList.1 htext
  have helements : (NameSet.ofList o.keys).names.mapM Coordinate.parse
      = .ok ((NameSet.ofList o.keys).names.map read) :=
    mapM_eq_ok fun text htext => hread text (hsorted text htext)
  -- The owners of an element are looked up by its text, which is the one that was read.
  have hrows : (((NameSet.ofList o.keys).names.map read).flatMap fun c =>
        (o.listed c.render).names.map (row c))
      = o.pairs.map fun p => row (read p.1) p.2 := by
    rw [pairs, List.map_flatMap, List.flatMap_map]
    simp only [List.flatMap_def, List.map_map, Function.comp_def]
    congr 1
    refine List.map_congr_left fun text htext => ?_
    rw [(hrender text (hsorted text htext)).2]
  simp only [table, helements, bind, Except.bind, pure, Except.pure]
  exact congrArg (fun rows => Except.ok (Table.mk tableColumns rows)) hrows

/-- Where some key is no coordinate, the least such key is reported. -/
theorem table_eq_error {o : Ownership} (h : ∃ text ∈ o.keys, ¬ IsCoordinateText text) :
    ∃ text ∈ o.keys, ¬ IsCoordinateText text ∧
      (∀ other ∈ o.keys, ¬ IsCoordinateText other → text ≤ other) ∧
      o.table = .error (.malformedCoordinate text) := by
  have hsorted : ∀ text, text ∈ (NameSet.ofList o.keys).names ↔ text ∈ o.keys := fun text =>
    NameSet.mem_ofList
  have hascending := NameSet.ascending (.ofList o.keys)
  cases hread : (NameSet.ofList o.keys).names.mapM Coordinate.parse with
  | ok elements =>
    -- Then every key would be a coordinate.
    obtain ⟨text, htext, hmalformed⟩ := h
    obtain ⟨c, hc⟩ := exists_mapM_eq_ok_iff.1 ⟨elements, hread⟩ text ((hsorted text).2 htext)
    exact absurd (Coordinate.exists_parse_iff.1 ⟨c, hc⟩) hmalformed
  | error e =>
    obtain ⟨before, text, after, hsplit, hbefore, herror⟩ := mapM_eq_error_iff.1 hread
    obtain ⟨hmalformed, rfl⟩ := Coordinate.parse_eq_error_iff.1 herror
    rw [hsplit] at hascending hsorted
    have htable : o.table = .error (.malformedCoordinate text) := by
      simp only [table, hread]
      rfl
    refine ⟨text, (hsorted text).1 (by simp), hmalformed, ?_, htable⟩
    intro other hother hmalformed'
    -- The keys in front of the first failure are coordinates.
    rcases List.mem_append.1 ((hsorted other).2 hother) with hfront | hrest
    · exact absurd (Coordinate.exists_parse_iff.1 (hbefore other hfront)) hmalformed'
    · rcases List.mem_cons.1 hrest with rfl | hbehind
      · exact String.le_refl other
      · have hlt := (List.pairwise_cons.1 (List.pairwise_append.1 hascending).2.1).1 other hbehind
        exact String.not_lt.1 fun hgt => String.lt_irrefl _ (String.lt_trans hgt hlt)

/-! ## The lists -/

/-- The list of a subgraph holds the elements that it owns. -/
theorem mem_ownedBy_iff {o : Ownership} {subgraph text : String} :
    text ∈ o.ownedBy subgraph ↔ ∃ owners, o.get? text = some owners ∧ subgraph ∈ owners := by
  rw [ownedBy, ← NameSet.mem_def, NameSet.mem_ofList, OrderedMap.mem_keys_iff]
  simp only [OrderedMap.get?_filter, Option.filter_eq_some_iff, decide_eq_true_eq]

/-- The list of subgraphs holds those that own something. -/
theorem mem_subgraphs_iff {o : Ownership} {subgraph : String} :
    subgraph ∈ o.subgraphs ↔ o.ownedBy subgraph ≠ [] := by
  rw [subgraphs, NameSet.mem_foldl_union]
  simp only [OrderedMap.mem_values_iff, NameSet.not_mem_empty, false_or]
  constructor
  · rintro ⟨owners, ⟨text, hget⟩, howner⟩
    exact List.ne_nil_of_mem (mem_ownedBy_iff.2 ⟨owners, hget, howner⟩)
  · intro hsome
    obtain ⟨text, htext⟩ := List.exists_mem_of_ne_nil _ hsome
    obtain ⟨owners, hget, howner⟩ := mem_ownedBy_iff.1 htext
    exact ⟨owners, ⟨text, hget⟩, howner⟩

/-! ## One relation -/

/-- The pair that a row is about: its first and its last cell. -/
def pairOf? : List (Option String) → Option (String × String)
  | [some text, _, _, some subgraph] => some (text, subgraph)
  | _ => none

/-- The pairs that the rows of a table are about. -/
def pairsOf (t : Table) : List (String × String) := t.rows.filterMap pairOf?

/-- What a table of owners says, next to the map and the lists. -/
structure Tabulates (o : Ownership) (t : Table) : Prop where
  /-- Every row is the row of an element and an owner, and is about that pair. -/
  rows : ∃ read : String → Coordinate,
    (∀ text ∈ o.keys, Coordinate.parse text = .ok (read text)) ∧
    t.rows = (pairsOf t).map fun p => row (read p.1) p.2
  /-- The rows ascend strictly by element and owner. -/
  ascending : (pairsOf t).Pairwise RowOrder
  /-- They are about the elements with their owners, and about nothing else. -/
  mem : ∀ text subgraph, (text, subgraph) ∈ pairsOf t ↔
    ∃ owners, o.get? text = some owners ∧ subgraph ∈ owners
  /-- The list of a subgraph holds the elements that have a row with it, in ascending order. -/
  owned : ∀ subgraph, (o.ownedBy subgraph).Pairwise (· < ·) ∧
    ∀ text, text ∈ o.ownedBy subgraph ↔ (text, subgraph) ∈ pairsOf t
  /-- The list of subgraphs holds those whose list is not empty. -/
  subgraphs : ∀ subgraph, subgraph ∈ o.subgraphs ↔ o.ownedBy subgraph ≠ []
  /-- The rows give the map back, apart from elements without owners. -/
  restored : ∀ text,
    (ofPairs (pairsOf t)).get? text = (o.filter fun _ owners => !owners.isEmpty).get? text

/-- Where all keys of a map of owners are coordinates, its table, the lists of what subgraphs own and
    the list of subgraphs are one relation with it, and the map can be made from the table again. If
    some key is no coordinate, there is no table, and the least such key is reported. -/
theorem table_lossless (o : Ownership) :
    ((∀ text ∈ o.keys, IsCoordinateText text) → ∃ t, o.table = .ok t ∧ o.Tabulates t) ∧
    ((∃ text ∈ o.keys, ¬ IsCoordinateText text) →
      ∃ text ∈ o.keys, ¬ IsCoordinateText text ∧
        (∀ other ∈ o.keys, ¬ IsCoordinateText other → text ≤ other) ∧
        o.table = .error (.malformedCoordinate text)) := by
  refine ⟨fun h => ?_, table_eq_error⟩
  obtain ⟨read, hread, htable⟩ := table_eq_ok h
  have hkey : ∀ p ∈ o.pairs, p.1 ∈ o.keys := by
    rintro ⟨text, subgraph⟩ hp
    obtain ⟨owners, hget, -⟩ := mem_pairs_iff.1 hp
    exact (OrderedMap.mem_keys_iff _ _).2 ⟨owners, hget⟩
  have hpairs : pairsOf ⟨tableColumns, o.pairs.map fun p => row (read p.1) p.2⟩ = o.pairs := by
    have hcell : ∀ p ∈ o.pairs, pairOf? (row (read p.1) p.2) = some p := by
      intro p hp
      rw [row, pairOf?, (hread p.1 (hkey p hp)).2]
    rw [pairsOf, List.filterMap_map]
    exact (List.filterMap_congr hcell).trans List.filterMap_some
  refine ⟨_, htable, ?_⟩
  constructor
  · exact ⟨read, fun text htext => Coordinate.parse_eq_ok_iff.2 (hread text htext), by rw [hpairs]⟩
  · rw [hpairs]
    exact ascending_pairs o
  · intro text subgraph
    rw [hpairs]
    exact mem_pairs_iff
  · intro subgraph
    refine ⟨NameSet.ascending _, fun text => ?_⟩
    rw [hpairs, mem_pairs_iff, mem_ownedBy_iff]
  · exact fun subgraph => mem_subgraphs_iff
  · intro text
    rw [hpairs]
    exact get?_ofPairs o text

end Ownership

/-! ## Owners with an argument and without -/

/-- Owners of a shop, one of an argument, and an element that nobody owns. -/
def listedOwners : Ownership := .ofList [
  ("Query.search.trace", .ofList ["index"]),
  ("Query.search", .ofList ["shops", "index"]),
  ("Query.ledger", .empty),
  ("Query", .ofList ["shops"])]

/-- The same owners with two texts that are no coordinates. -/
def misspeltOwners : Ownership := .ofList [
  ("Query..search", .ofList ["shops"]), ("Query", .ofList ["shops"]), (".ledger", .empty)]

/-- The first map has a table from which everything but the element without owners comes back; in
    the second the least misspelt key is reported, although nobody owns it. -/
theorem listedOwners_tabulated :
    (∃ t, listedOwners.table = .ok t ∧ listedOwners.Tabulates t ∧
      Ownership.pairsOf t = [("Query", "shops"), ("Query.search", "index"),
        ("Query.search", "shops"), ("Query.search.trace", "index")]) ∧
    misspeltOwners.table = .error (.malformedCoordinate ".ledger") := by
  constructor
  · obtain ⟨t, htable, htabulates⟩ :=
      (Ownership.table_lossless listedOwners).1 (by decide +kernel)
    obtain ⟨computed, hcomputed, hpairs⟩ : ∃ computed, listedOwners.table = .ok computed ∧
        Ownership.pairsOf computed = [("Query", "shops"), ("Query.search", "index"),
          ("Query.search", "shops"), ("Query.search.trace", "index")] :=
      ⟨_, rfl, by decide +kernel⟩
    obtain rfl : t = computed := Except.ok.inj (htable.symm.trans hcomputed)
    exact ⟨t, htable, htabulates, hpairs⟩
  · obtain ⟨text, htext, hmalformed, hleast, herror⟩ :=
      (Ownership.table_lossless misspeltOwners).2 (by decide +kernel)
    have hkeys : misspeltOwners.keys = ["Query..search", "Query", ".ledger"] := rfl
    have hle : text ≤ ".ledger" := hleast ".ledger" (by simp [hkeys]) (by decide +kernel)
    rw [hkeys] at htext
    simp only [List.mem_cons, List.not_mem_nil, or_false] at htext
    rcases htext with rfl | rfl | rfl
    · exact absurd hle (by decide +kernel)
    · exact absurd hle (by decide +kernel)
    · exact herror

end SchemaView
