import SchemaView.Proofs.AddressedSites
import SchemaView.Proofs.Remarking

/-!
# The algebra of marking

Marks never disturb each other. Marking by one list of texts and then by another is marking by both,
so that neither order nor repetition of texts counts; marking all types but some and then all but
others is marking all but those in both sets; and the two ways of marking commute. On the names of
types they are one: marking some types by their names is marking all types but the others.

All of it comes from `Document.mark_mark`, which joins the tests of two rounds.

## Key results

- `markTexts_congr`: of the texts only their set counts
- `markTypes_markTypes`: the types that are kept are those that both rounds keep
- `markTexts_markTypes`: the two ways of marking commute
- `markTexts_names`: marking types by their names
- `marking_homomorphism`: all laws together
-/

namespace SchemaView

open Sdl

/-! ## Sets of names -/

/-- The members that two sets share. -/
def NameSet.inter (s t : NameSet) : NameSet :=
  ⟨s.names.filter fun x => decide (x ∈ t), s.ascending.filter _⟩

@[simp] theorem NameSet.mem_inter {s t : NameSet} {x : String} : x ∈ s.inter t ↔ x ∈ s ∧ x ∈ t := by
  simp [NameSet.inter, NameSet.mem_def]

/-! ## Names of types as texts -/

theorem Coordinate.render_type (n : Name) : (Coordinate.type n).render = n := by
  simp [render, parts]

theorem wellNamed_type {n : Name} (h : IsPart n) : (Coordinate.type n).WellNamed := by
  simpa [Coordinate.WellNamed, Coordinate.parts] using h

/-- The name of a type is the text of a coordinate. -/
theorem IsPart.isCoordinateText {n : Name} (h : IsPart n) : IsCoordinateText n := by
  have hread := (wellNamed_type h).parse?_render
  rw [Coordinate.render_type] at hread
  exact Coordinate.exists_parse?_iff.1 ⟨_, hread⟩

/-- Names of types address these types and nothing else. -/
theorem addresses_names_iff {names : List Name} (h : ∀ n ∈ names, IsPart n) {c : Coordinate} :
    Addresses names c ↔ ∃ n ∈ names, c = .type n := by
  constructor
  · rintro ⟨hnamed, htext⟩
    -- The text has no dot, so it is read as a type as well.
    exact ⟨_, htext, hnamed.render_inj (wellNamed_type (h _ htext)) (Coordinate.render_type _).symm⟩
  · rintro ⟨n, hn, rfl⟩
    exact ⟨wellNamed_type (h n hn), by rwa [Coordinate.render_type]⟩

/-- All sites of a declaration belong to the type that is declared. -/
theorem typeName_of_mem_sitesOf {u : TypeDecl} {s : Site} (h : s ∈ sitesOf u) :
    s.coordinate.typeName = u.name := by
  rcases List.mem_cons.1 h with rfl | h
  · rfl
  · obtain ⟨m, -, h⟩ := List.mem_flatMap.1 h
    rcases List.mem_cons.1 h with rfl | h
    · rfl
    · obtain ⟨a, -, rfl⟩ := List.mem_map.1 h
      rfl

namespace Document

variable {d : Document} {marker : Name}

/-- The site of a definition belongs to a type that the document defines or extends. -/
theorem typeName_mem_of_mem_definitionSites {x : Definition} (hx : x ∈ d.definitions) {s : Site}
    (hs : s ∈ definitionSites x) :
    s.coordinate.typeName ∈ d.writtenDeclarations.map TypeDecl.name := by
  have hdeclared {u : TypeDecl} (hu : declaration? x = some u) (hs : s ∈ sitesOf u) :
      s.coordinate.typeName ∈ d.writtenDeclarations.map TypeDecl.name :=
    List.mem_map.2 ⟨u, List.mem_filterMap.2 ⟨x, hx, hu⟩, (typeName_of_mem_sitesOf hs).symm⟩
  cases x with
  | type u => exact hdeclared rfl hs
  | typeExtension u => exact hdeclared rfl hs
  | schema _ | schemaExtension _ | directive _ | operation _ | fragment _ =>
    exact absurd hs List.not_mem_nil

/-- The names of the types that the document defines or extends, without some of them. -/
def otherTypes (d : Document) (types : NameSet) : NameSet :=
  .ofList ((d.writtenDeclarations.map TypeDecl.name).filter fun n => !decide (n ∈ types))

theorem mem_otherTypes {types : NameSet} {n : Name} : n ∈ d.otherTypes types ↔
    n ∈ d.writtenDeclarations.map TypeDecl.name ∧ n ∉ types := by
  simp only [otherTypes, NameSet.mem_ofList, List.mem_filter, Bool.not_eq_true',
    decide_eq_false_iff_not]

/-! ## The laws one by one -/

/-- Of the texts by which a document is marked, neither order nor number counts. -/
theorem markTexts_congr {texts others : List String} (hsame : ∀ text, text ∈ texts ↔ text ∈ others)
    (htexts : ∀ text ∈ texts, IsCoordinateText text) :
    d.markTexts marker texts = d.markTexts marker others := by
  have hothers : ∀ text ∈ others, IsCoordinateText text := fun text htext =>
    htexts text ((hsame text).2 htext)
  have haddresses : Addresses texts = Addresses others := by
    funext c
    rw [Addresses, Addresses, hsame]
  rw [markTexts_eq_ok_iff.2 ⟨htexts, rfl⟩, markTexts_eq_ok_iff.2 ⟨hothers, rfl⟩]
  simp only [haddresses]

/-- Marking the types outside of one set and then those outside of another keeps the types that are
    in both. -/
theorem markTypes_markTypes (d : Document) (marker : Name) (keep keep' : NameSet) :
    (d.markTypes marker keep).markTypes marker keep'
      = d.markTypes marker (keep.inter keep') := by
  simp only [markTypes, mark_mark]
  congr 1
  funext c
  cases c.isType <;> simp [Bool.decide_and, Bool.not_and]

/-- Marking by texts and marking types commute. -/
theorem markTexts_markTypes (d : Document) (marker : Name) (texts : List String) (keep : NameSet) :
    (d.markTypes marker keep).markTexts marker texts
      = (d.markTexts marker texts).map fun e => e.markTypes marker keep := by
  rw [markTexts, markTexts]
  cases texts.mapM Coordinate.parse with
  | error failure => rfl
  | ok coordinates =>
    show Except.ok ((d.markTypes marker keep).markAt marker coordinates)
      = Except.ok ((d.markAt marker coordinates).markTypes marker keep)
    simp only [markAt, markTypes, mark_mark, Bool.or_comm]

/-- Marking types by their names is marking all types but the others of the document. -/
theorem markTexts_names {types : NameSet} (h : ∀ n ∈ types, IsPart n) :
    d.markTexts marker types.names = .ok (d.markTypes marker (d.otherTypes types)) := by
  refine markTexts_eq_ok_iff.2 ⟨fun n hn => (h n hn).isCoordinateText, ?_⟩
  rw [markTypes]
  refine mark_congr_sites fun x hx s hs => ?_
  have hdeclared := typeName_mem_of_mem_definitionSites hx hs
  rw [Bool.eq_iff_iff, decide_eq_true_iff, addresses_names_iff h]
  cases hc : s.coordinate with
  | type n =>
    rw [hc] at hdeclared
    have hother : n ∈ d.otherTypes types ↔ n ∉ types :=
      mem_otherTypes.trans (and_iff_right hdeclared)
    simp [Coordinate.isType, Coordinate.typeName, hother, NameSet.mem_def]
  | member _ _ | argument _ _ _ => simp [Coordinate.isType]

/-! ## The laws together -/

/-- Marking turns the union of lists of coordinates into one round after another, and it answers
    exactly for lists of coordinates; of a list only its set of texts counts. Two rounds over types
    keep what both keep. The two ways of marking commute, they agree on sets of types, and repeating
    a round changes nothing. -/
theorem marking_homomorphism (d : Document) (marker : Name) :
    (∀ texts others, d.markTexts marker (texts ++ others)
      = d.markTexts marker texts >>= fun e => e.markTexts marker others) ∧
    (∀ texts, (∃ e, d.markTexts marker texts = .ok e) ↔
      ∀ text ∈ texts, IsCoordinateText text) ∧
    (∀ texts others, (∀ text ∈ texts, IsCoordinateText text) →
      (∀ text, text ∈ texts ↔ text ∈ others) →
      d.markTexts marker texts = d.markTexts marker others) ∧
    (∀ keep keep', (d.markTypes marker keep).markTypes marker keep'
      = d.markTypes marker (keep.inter keep')) ∧
    (∀ texts keep, (d.markTypes marker keep).markTexts marker texts
      = (d.markTexts marker texts).map fun e => e.markTypes marker keep) ∧
    (∀ types : NameSet, (∀ n ∈ types, IsPart n) →
      d.markTexts marker types.names = .ok (d.markTypes marker (d.otherTypes types))) ∧
    (∀ texts e, d.markTexts marker texts = .ok e → e.markTexts marker texts = .ok e) ∧
    ∀ keep, (d.markTypes marker keep).markTypes marker keep = d.markTypes marker keep := by
  have hanswers : ∀ texts, (∃ e, d.markTexts marker texts = .ok e) ↔
      ∀ text ∈ texts, IsCoordinateText text := by
    simp [markTexts_eq_ok_iff]
  refine ⟨d.markTexts_append marker, hanswers, fun _ _ htexts hsame => markTexts_congr hsame htexts,
    d.markTypes_markTypes marker, fun texts keep => d.markTexts_markTypes marker texts keep,
    fun _ h => markTexts_names h, fun texts e he => ?_, fun keep => ?_⟩
  · -- Two rounds are one round by the texts repeated, which is one by the texts.
    have htexts := (hanswers texts).1 ⟨e, he⟩
    have htwice : d.markTexts marker (texts ++ texts) = d.markTexts marker texts := by
      refine markTexts_congr (fun text => by simp) fun text htext => ?_
      exact htexts text (by simpa using htext)
    rw [markTexts_append, he] at htwice
    exact htwice
  · have hsame : keep.inter keep = keep := NameSet.ext fun n => by simp
    rw [markTypes_markTypes, hsame]

end Document

/-- Marking first the field and then its type, twice, is marking by all these texts in any order.
    The type alone is marked just as all types but the other one. -/
theorem sizedShop_marked_in_rounds :
    (∃ e, sizedShop.markTexts defaultMarker ["Shop.find"] = .ok e ∧
      e.markTexts defaultMarker ["Shop", "Shop"]
        = sizedShop.markTexts defaultMarker ["Shop", "Shop.find"]) ∧
    sizedShop.markTexts defaultMarker ["Shop"]
      = .ok (sizedShop.markTypes defaultMarker (.ofList ["Size"])) := by
  obtain ⟨happend, hanswers, hset, -, -, hnames, -⟩ :=
    sizedShop.marking_homomorphism defaultMarker
  obtain ⟨e, he⟩ := (hanswers ["Shop.find"]).2 (by decide +kernel)
  have hrounds := happend ["Shop.find"] ["Shop", "Shop"]
  rw [he] at hrounds
  have horder := hset (["Shop.find"] ++ ["Shop", "Shop"]) ["Shop", "Shop.find"]
    (by decide +kernel) (fun text => by grind)
  have htypes := hnames (.ofList ["Shop"]) (by decide +kernel)
  exact ⟨⟨e, he, hrounds.symm.trans horder⟩, htypes⟩

end SchemaView
