import SchemaView.Marking
import SchemaView.Ownership
import SchemaView.Proofs.Answers

/-!
# Coordinates as texts

Ownership, reports and remarking name elements by the texts of their coordinates. A text is cut at
its dots, so it gives back the coordinate that it writes as long as no name in it is empty or has a
dot. Names that readers of schemas produce are like that.

## Key results

- `Text.split_intercalate`, `Text.intercalate_split`: cutting undoes joining, and joining undoes
  cutting
- `parse_render`: the text of a well-named coordinate is read back as that coordinate
- `parse?_eq_some_iff`: nothing else is read
- `exists_parse?_iff`: which texts are read at all
- `parse_lossless`: writing and reading lose nothing
- `ownersOfText_render`, `markTexts_eq`: owners and marks by text are owners and marks by coordinate
-/

namespace SchemaView

open Sdl (Name)

/-! ## Cutting and joining -/

namespace Text

variable {sep : Char}

/-- Up to a separator all characters belong to the current part. -/
theorem cutAt_append {xs : List Char} (h : sep ∉ xs) (part rest : List Char) :
    cutAt sep part (xs ++ rest) = cutAt sep (xs.reverse ++ part) rest := by
  induction xs generalizing part with
  | nil => rfl
  | cons x xs ih =>
    rw [List.mem_cons, not_or] at h
    have hx : ¬ x = sep := fun heq => h.1 heq.symm
    rw [List.cons_append, cutAt, if_neg hx, ih h.2]
    simp

/-- Cutting at a separator undoes joining with it, if no part has it. -/
theorem cutAt_intercalate {parts : List (List Char)} (hsome : parts ≠ [])
    (h : ∀ part ∈ parts, sep ∉ part) : cutAt sep [] ([sep].intercalate parts) = parts := by
  induction parts with
  | nil => exact absurd rfl hsome
  | cons x xs ih =>
    have hx : sep ∉ x := h x List.mem_cons_self
    cases xs with
    | nil =>
      have hcut := cutAt_append hx [] []
      rw [List.append_nil] at hcut
      rw [List.intercalate_singleton, hcut]
      simp [cutAt]
    | cons y ys =>
      have hrest := ih (List.cons_ne_nil y ys) fun part hp => h part (List.mem_cons_of_mem _ hp)
      rw [List.intercalate_cons_cons, List.append_assoc, cutAt_append hx, List.singleton_append,
        cutAt, if_pos rfl, hrest]
      simp

theorem split_intercalate {parts : List String} (hsome : parts ≠ [])
    (h : ∀ part ∈ parts, sep ∉ part.toList) :
    split sep ((String.singleton sep).intercalate parts) = parts := by
  have hchars : ∀ part ∈ parts.map String.toList, sep ∉ part := by
    intro part hp
    obtain ⟨text, htext, rfl⟩ := List.mem_map.1 hp
    exact h text htext
  have hsome' : parts.map String.toList ≠ [] := by simpa using hsome
  rw [split, String.toList_intercalate, String.toList_singleton, cutAt_intercalate hsome' hchars,
    List.map_map]
  -- A text is the text of its characters.
  have hid : String.ofList ∘ String.toList = id := funext fun _ => String.ofList_toList
  rw [hid, List.map_id]

/-- Cutting gives at least one part. -/
theorem cutAt_ne_nil (part text : List Char) : cutAt sep part text ≠ [] := by
  induction text generalizing part with
  | nil => simp [cutAt]
  | cons c rest ih =>
    rw [cutAt]
    split
    · simp
    · exact ih _

/-- Joining with a separator undoes cutting at it, whatever was read of the current part. -/
theorem intercalate_cutAt (part text : List Char) :
    [sep].intercalate (cutAt sep part text) = part.reverse ++ text := by
  induction text generalizing part with
  | nil => simp [cutAt]
  | cons c rest ih =>
    by_cases hc : c = sep
    · -- A part ends here, and the parts behind it are joined to the rest.
      have hsome : cutAt sep [] rest ≠ [] := cutAt_ne_nil [] rest
      obtain ⟨next, others, hparts⟩ := List.exists_cons_of_ne_nil hsome
      have hrest := ih []
      rw [hparts] at hrest
      rw [cutAt, if_pos hc, hparts, List.intercalate_cons_cons, hrest, hc]
      simp
    · rw [cutAt, if_neg hc, ih]
      simp

/-- No part has the separator. -/
theorem not_mem_of_mem_cutAt {part text : List Char} (hpart : sep ∉ part) :
    ∀ piece ∈ cutAt sep part text, sep ∉ piece := by
  induction text generalizing part with
  | nil => simpa [cutAt] using hpart
  | cons c rest ih =>
    by_cases hc : c = sep
    · rw [cutAt, if_pos hc, List.forall_mem_cons]
      exact ⟨by simpa using hpart, ih List.not_mem_nil⟩
    · rw [cutAt, if_neg hc]
      exact ih (by simp [Ne.symm hc, hpart])

/-- Cutting gives at least one part. -/
theorem split_ne_nil (text : String) : split sep text ≠ [] := by
  simp [split, cutAt_ne_nil]

/-- Joining undoes cutting. -/
theorem intercalate_split (text : String) :
    (String.singleton sep).intercalate (split sep text) = text := by
  apply String.toList_inj.1
  rw [String.toList_intercalate, String.toList_singleton, split, List.map_map]
  have hid : String.toList ∘ String.ofList = id := funext fun _ => String.toList_ofList
  rw [hid, List.map_id, intercalate_cutAt]
  simp

/-- No part has the separator. -/
theorem not_mem_of_mem_split {text part : String} (h : part ∈ split sep text) :
    sep ∉ part.toList := by
  obtain ⟨piece, hpiece, rfl⟩ := List.mem_map.1 h
  rw [String.toList_ofList]
  exact not_mem_of_mem_cutAt List.not_mem_nil piece hpiece

end Text

/-! ## Well-named coordinates -/

/-- Whether a text can be a part of a coordinate: it is not empty and has no dot. -/
def IsPart (name : Name) : Prop := name ≠ "" ∧ '.' ∉ name.toList

instance (name : Name) : Decidable (IsPart name) :=
  inferInstanceAs (Decidable (_ ∧ _))

namespace Coordinate

/-- Every name of the coordinate can be a part of one. -/
def WellNamed (c : Coordinate) : Prop := ∀ name ∈ c.parts, IsPart name

instance (c : Coordinate) : Decidable c.WellNamed :=
  inferInstanceAs (Decidable (∀ name ∈ c.parts, IsPart name))

variable {c : Coordinate}

theorem WellNamed.parse?_render (h : c.WellNamed) : parse? c.render = some c := by
  have hparts : c.parts ≠ [] := by cases c <;> simp [parts]
  have hsplit : Text.split '.' c.render = c.parts :=
    Text.split_intercalate hparts fun name hname => (h name hname).2
  rw [parse?, hsplit, ofParts?_eq_some_iff]
  refine ⟨rfl, List.any_eq_false.2 fun name hname => ?_⟩
  rw [String.isEmpty_iff]
  exact (h name hname).1

/-- The text of a well-named coordinate is read back as that coordinate. -/
theorem WellNamed.parse_render (h : c.WellNamed) : parse c.render = .ok c := by
  rw [parse, h.parse?_render]

/-- Well-named coordinates with one text are one coordinate. -/
theorem WellNamed.render_inj {other : Coordinate} (h : c.WellNamed) (hother : other.WellNamed)
    (htext : c.render = other.render) : c = other := by
  have hread := h.parse?_render
  rw [htext, hother.parse?_render, Option.some.injEq] at hread
  exact hread.symm

/-- The text of an element starts with its type, and goes on with a dot unless it is a type. -/
theorem toList_render (c : Coordinate) : ∃ more, c.render.toList
    = c.typeName.toList ++ if c.isType then [] else '.' :: more := by
  cases c with
  | type t => exact ⟨[], by simp [render, parts, typeName, isType]⟩
  | member t m => exact ⟨m.toList, by simp [render, parts, typeName, isType]⟩
  | argument t m a =>
    exact ⟨m.toList ++ '.' :: a.toList, by simp [render, parts, typeName, isType]⟩

/-- The type of a well-named element has no dot. -/
theorem WellNamed.dot_not_mem_typeName (h : c.WellNamed) : '.' ∉ c.typeName.toList := by
  have hname : c.typeName ∈ c.parts := by cases c <;> simp [typeName, parts]
  exact (h _ hname).2

/-- The type that an element belongs to is what its text has in front of the first dot. -/
theorem WellNamed.typeNameOfText_render (h : c.WellNamed) :
    typeNameOfText c.render = c.typeName := by
  obtain ⟨more, hmore⟩ := toList_render c
  have hname : ∀ x ∈ c.typeName.toList, (x != '.') = true := by
    intro x hx
    rw [bne_iff_ne]
    rintro rfl
    exact h.dot_not_mem_typeName hx
  have hrest : (if c.isType then [] else '.' :: more).takeWhile (· != '.') = [] := by
    cases c.isType <;> rfl
  rw [typeNameOfText, hmore, List.takeWhile_append_of_pos hname, hrest, List.append_nil,
    String.ofList_toList]

/-- An element is a type exactly if its text has no dot. -/
theorem WellNamed.isTypeText_render (h : c.WellNamed) : isTypeText c.render = c.isType := by
  obtain ⟨more, hmore⟩ := toList_render c
  have hname := h.dot_not_mem_typeName
  rw [isTypeText, hmore]
  cases c.isType <;> simp [hname]

/-- A text is read as a coordinate exactly if it is the text of that coordinate, whose names are
    then in order. -/
theorem parse?_eq_some_iff {text : String} :
    parse? text = some c ↔ c.WellNamed ∧ c.render = text := by
  constructor
  · intro h
    rw [parse?, ofParts?_eq_some_iff] at h
    obtain ⟨hparts, hfull⟩ := h
    constructor
    · intro name hname
      rw [hparts] at hname
      have hsome := List.any_eq_false.1 hfull name hname
      rw [String.isEmpty_iff] at hsome
      exact ⟨hsome, Text.not_mem_of_mem_split hname⟩
    · rw [render, hparts]
      exact Text.intercalate_split text
  · rintro ⟨h, rfl⟩
    exact h.parse?_render

end Coordinate

/-- Whether a text is cut by its dots into at most three parts, none of which is empty. -/
def IsCoordinateText (text : String) : Prop :=
  (Text.split '.' text).length ≤ 3 ∧ ∀ part ∈ Text.split '.' text, part ≠ ""

instance (text : String) : Decidable (IsCoordinateText text) :=
  inferInstanceAs (Decidable (_ ∧ _))

namespace Coordinate

/-- Names are those of a coordinate if there are one to three of them and none is empty. -/
theorem exists_ofParts?_iff {names : List Name} (hsome : names ≠ []) :
    (∃ c, ofParts? names = some c) ↔ names.length ≤ 3 ∧ ∀ name ∈ names, name ≠ "" := by
  have hfull : names.any String.isEmpty = false ↔ ∀ name ∈ names, name ≠ "" := by
    simp [List.any_eq_false]
  simp only [ofParts?_eq_some_iff, exists_and_right, hfull, and_congr_left_iff]
  intro _
  constructor
  · rintro ⟨c, rfl⟩
    cases c <;> simp [parts]
  · intro hlength
    obtain _ | ⟨t, _ | ⟨m, _ | ⟨a, _ | ⟨b, rest⟩⟩⟩⟩ := names
    · exact absurd rfl hsome
    · exact ⟨type t, rfl⟩
    · exact ⟨member t m, rfl⟩
    · exact ⟨argument t m a, rfl⟩
    · simp only [List.length_cons] at hlength
      omega

/-- The texts that are read as coordinates. -/
theorem exists_parse?_iff {text : String} : (∃ c, parse? text = some c) ↔ IsCoordinateText text :=
  exists_ofParts?_iff (Text.split_ne_nil text)

/-- The texts that are read as coordinates, as far as failures are concerned. -/
theorem exists_parse_iff {text : String} :
    (∃ c, parse text = .ok c) ↔ IsCoordinateText text := by
  rw [← exists_parse?_iff, parse]
  cases parse? text <;> simp

theorem parse_eq_ok_iff {text : String} : parse text = .ok c ↔ c.WellNamed ∧ c.render = text := by
  rw [← parse?_eq_some_iff, parse]
  cases parse? text <;> simp

/-- Every other text is reported as it is. -/
theorem parse_eq_error_iff {text : String} {e : Error} :
    parse text = .error e ↔ ¬ IsCoordinateText text ∧ e = .malformedCoordinate text := by
  rw [← exists_parse?_iff, parse]
  cases parse? text <;> simp [eq_comm]

end Coordinate

/-! ## What is read -/

/-- Whether a text is one to three names with a dot between two of them, where no name is empty or
    has a dot. -/
def IsDottedText (text : String) : Prop :=
  ∃ names : List Name, 1 ≤ names.length ∧ names.length ≤ 3 ∧ (∀ name ∈ names, IsPart name) ∧
    ".".intercalate names = text

/-- The names between the dots are those that the text is cut into. -/
theorem isDottedText_iff {text : String} : IsDottedText text ↔ IsCoordinateText text := by
  constructor
  · rintro ⟨names, hsome, hlength, hparts, rfl⟩
    have hnames : names ≠ [] := List.ne_nil_of_length_pos hsome
    have hsplit : Text.split '.' (".".intercalate names) = names :=
      Text.split_intercalate hnames fun name hname => (hparts name hname).2
    rw [IsCoordinateText, hsplit]
    exact ⟨hlength, fun name hname => (hparts name hname).1⟩
  · rintro ⟨hlength, hfull⟩
    refine ⟨Text.split '.' text, List.length_pos_iff.2 (Text.split_ne_nil text), hlength, ?_,
      Text.intercalate_split text⟩
    exact fun name hname => ⟨hfull name hname, Text.not_mem_of_mem_split hname⟩

instance (text : String) : Decidable (IsDottedText text) :=
  decidable_of_iff (IsCoordinateText text) isDottedText_iff.symm

namespace Coordinate

/-- The names of a coordinate are its type and, as far as there are any, its member and its
    argument. -/
theorem parts_eq (c : Coordinate) :
    c.parts = c.typeName :: (c.memberName?.toList ++ c.argumentName?.toList) := by
  cases c <;> rfl

theorem isType_iff {c : Coordinate} : c.isType = true ↔ c.memberName? = none := by
  cases c <;> simp [isType, memberName?]

/-- Writing and reading coordinates loses nothing. The text of a coordinate whose names are not
    empty and have no dots is read back as that coordinate, so different ones have different texts.
    A text is read exactly if it is one to three such names with dots between them. The names that
    are read are then those in the text, of which the first is what stands in front of the first
    dot, and there is no second one exactly if there is no dot. Every other text is reported. -/
theorem parse_lossless :
    (∀ c : Coordinate, c.WellNamed → parse c.render = .ok c) ∧
    (∀ c other : Coordinate, c.WellNamed → other.WellNamed → c.render = other.render →
      c = other) ∧
    ∀ text : String, ((∃ c, parse text = .ok c) ↔ IsDottedText text) ∧
      (∀ c, parse text = .ok c →
        ".".intercalate (c.typeName :: (c.memberName?.toList ++ c.argumentName?.toList)) = text ∧
        c.typeName = typeNameOfText text ∧ (isTypeText text = true ↔ c.memberName? = none)) ∧
      (¬ IsDottedText text → parse text = .error (.malformedCoordinate text)) := by
  refine ⟨fun c hc => hc.parse_render, fun c other hc hother => hc.render_inj hother,
    fun text => ⟨?_, ?_, ?_⟩⟩
  · rw [exists_parse_iff, isDottedText_iff]
  · intro c hread
    obtain ⟨hc, rfl⟩ := parse_eq_ok_iff.1 hread
    rw [← parts_eq, hc.typeNameOfText_render, hc.isTypeText_render, isType_iff]
    exact ⟨rfl, rfl, Iff.rfl⟩
  · intro hother
    rw [isDottedText_iff] at hother
    exact parse_eq_error_iff.2 ⟨hother, rfl⟩

/-- An argument is written and read back, apart from the field that it belongs to. A text with two
    dots in a row is reported. -/
theorem productId_read :
    let product := member "Query" "product"
    let productId := argument "Query" "product" "id"
    product.WellNamed ∧ productId.WellNamed ∧ parse "Query.product.id" = .ok productId ∧
    "Query.product.id" ≠ product.render ∧ IsDottedText "Query.product.id" ∧
    typeNameOfText "Query.product.id" = "Query" ∧ isTypeText "Query.product.id" = false ∧
    ¬ IsDottedText "Query..id" ∧ parse "Query..id" = .error (.malformedCoordinate "Query..id") := by
  intro product productId
  obtain ⟨hwritten, hdistinct, hread⟩ := parse_lossless
  have hproduct : product.WellNamed := by decide
  have hproductId : productId.WellNamed := by decide
  have hparse : parse "Query.product.id" = .ok productId := hwritten productId hproductId
  obtain ⟨hdotted, hnames, -⟩ := hread "Query.product.id"
  obtain ⟨-, htype, hmember⟩ := hnames productId hparse
  have hother : ¬ IsDottedText "Query..id" := by decide
  refine ⟨hproduct, hproductId, hparse, fun heq => ?_, hdotted.1 ⟨_, hparse⟩, htype.symm,
    Bool.eq_false_iff.2 fun h => ?_, hother, (hread "Query..id").2.2 hother⟩
  · exact nomatch hdistinct productId product hproductId hproduct heq
  · exact nomatch hmember.1 h

end Coordinate

/-- No name of a type, member or argument of the document is empty or has a dot. -/
def Document.WellNamed (d : Document) : Prop :=
  ∀ t ∈ d.typeDeclarations, ∀ s ∈ sitesOf t, s.coordinate.WellNamed

instance (d : Document) : Decidable d.WellNamed :=
  inferInstanceAs (Decidable (∀ t ∈ d.typeDeclarations, ∀ s ∈ sitesOf t, s.coordinate.WellNamed))

/-! ## Owners and marks by text -/

/-- By its text an element has the owners that it has by its coordinate. -/
theorem Ownership.ownersOfText_render (o : Ownership) {c : Coordinate} (h : c.WellNamed) :
    o.ownersOfText c.render = .ok (o.owners c) := by
  cases howners : o.get? c.render with
  | some found => simp only [ownersOfText, owners, howners]
  | none =>
    simp only [ownersOfText, howners, h.parse_render]
    rfl

namespace Document

variable {d : Document} {marker : Name}

/-- Of the coordinates by which a document is marked, neither order nor number counts. -/
theorem markAt_congr {xs ys : List Coordinate} (h : ∀ c, c ∈ xs ↔ c ∈ ys) :
    d.markAt marker xs = d.markAt marker ys := by
  have htest : (fun c => decide (c ∈ xs)) = fun c => decide (c ∈ ys) := by
    funext c
    rw [decide_eq_decide]
    exact h c
  rw [markAt, markAt, htest]

/-- Marking by the texts of well-named coordinates is marking by the coordinates. -/
theorem markTexts_eq {texts : List String} {coordinates : List Coordinate}
    (hnamed : ∀ c ∈ coordinates, c.WellNamed)
    (htexts : ∀ text, text ∈ texts ↔ text ∈ coordinates.map Coordinate.render) :
    d.markTexts marker texts = .ok (d.markAt marker coordinates) := by
  -- Every text is that of a coordinate, and of no other.
  let read (text : String) : Coordinate := (Coordinate.parse? text).getD (.type text)
  have hread : ∀ c ∈ coordinates, read c.render = c := by
    intro c hc
    simp only [read, (hnamed c hc).parse?_render, Option.getD_some]
  have hparse : ∀ text ∈ texts, Coordinate.parse text = .ok (read text) := by
    intro text htext
    obtain ⟨c, hc, rfl⟩ := List.mem_map.1 ((htexts text).1 htext)
    rw [(hnamed c hc).parse_render, hread c hc]
  have hmem : ∀ c, c ∈ texts.map read ↔ c ∈ coordinates := by
    intro c
    rw [List.mem_map]
    constructor
    · rintro ⟨text, htext, rfl⟩
      obtain ⟨c, hc, rfl⟩ := List.mem_map.1 ((htexts text).1 htext)
      rw [hread c hc]
      exact hc
    · intro hc
      exact ⟨c.render, (htexts _).2 (List.mem_map.2 ⟨c, hc, rfl⟩), hread c hc⟩
  rw [markTexts, mapM_eq_ok hparse]
  simp only [bind, Except.bind, pure, Except.pure, markAt_congr hmem]

end Document

end SchemaView
