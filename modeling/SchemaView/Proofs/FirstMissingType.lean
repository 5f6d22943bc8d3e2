import SchemaView.Proofs.UndefinedReferences

/-!
# The first type that is missing

`Document.typeGraph` fails with the first mention of a type that is not there. This file says which
one that is by places in the document: definitions before extensions, in each of them the extended
type first, then every field with its arguments behind it, then interfaces, members of a union and
input fields. A place is given by the numbers of the parts that lead to it, so places are ordered
as words are, and `Document.ScansAt` says what is named where without a traversal.

A built-in scalar is never missing where it is referred to. Where it is extended without being
defined it is missing like any other type.

## Key results

- `mem_scan_iff`, `inOrder_scan`: the traversal lists the scanned places in order
- `findSome?_eq_some_iff_first`: a search in such a list finds the first place
- `typeGraph_eq_error_iff`: the reported type is the one at the first place with a missing type
- `typeGraph_scan`: when there is a graph, and between which types its edges are
-/

namespace SchemaView

open Sdl

/-! ## Places -/

/-- What the declaration of a type names, each name with its place in the body of the declaration
    and with the element that an error reports. Ignored fields, input fields and arguments name
    nothing. -/
inductive ScansBody (ignore : Option Name) (type : Name) (b : TypeBody) :
    List Nat → Name → Referrer → Prop
  | field {i : Nat} {f : Field} (hf : (fieldsOf b)[i]? = some f)
      (hopen : isIgnored ignore f.directives = false) :
      ScansBody ignore type b [0, i] f.type.baseName (.element (.member type f.name))
  | argument {i j : Nat} {f : Field} {a : InputValue} (hf : (fieldsOf b)[i]? = some f)
      (hopen : isIgnored ignore f.directives = false) (ha : f.arguments[j]? = some a)
      (hopen' : isIgnored ignore a.directives = false) :
      ScansBody ignore type b [0, i, j] a.type.baseName
        (.element (.argument type f.name a.name))
  | interface {i : Nat} {name : Name} (hname : (interfacesOf b)[i]? = some name) :
      ScansBody ignore type b [1, i] name (.element (.type type))
  | unionMember {i : Nat} {name : Name} (hname : (unionMembersOf b)[i]? = some name) :
      ScansBody ignore type b [2, i] name (.element (.type type))
  | inputField {i : Nat} {v : InputValue} (hv : (inputFieldsOf b)[i]? = some v)
      (hopen : isIgnored ignore v.directives = false) :
      ScansBody ignore type b [3, i] v.type.baseName (.element (.member type v.name))

/-- What a document names, with places and elements: what its definitions name, then for each
    extension the extended type and what the extension names. -/
inductive Document.ScansAt (d : Document) (ignore : Option Name) :
    List Nat → Name → Referrer → Prop
  | definition {i : Nat} {t : TypeDecl} {place : List Nat} {name : Name} {referrer : Referrer}
      (ht : d.definedTypes.values[i]? = some t)
      (hbody : ScansBody ignore t.name t.body place name referrer) :
      ScansAt d ignore (0 :: i :: place) name referrer
  | extended {i : Nat} {t : TypeDecl} (ht : d.extensions[i]? = some t) :
      ScansAt d ignore [1, i] t.name (.extension t.name)
  | extension {i : Nat} {t : TypeDecl} {place : List Nat} {name : Name} {referrer : Referrer}
      (ht : d.extensions[i]? = some t)
      (hbody : ScansBody ignore t.name t.body place name referrer) :
      ScansAt d ignore (1 :: i :: place) name referrer

/-! ## Lists with places -/

/-- Names with the elements from which they are referred to, and with their places. -/
abbrev Scan := List (List Nat × Name × Referrer)

/-- The places of a scan are in order, and none is there twice. -/
def Scan.InOrder (s : Scan) : Prop := s.Pairwise fun x y => x.1 < y.1

/-- What is scanned in each element of a list, with the number of the element in front. -/
def numbered {α : Type} (f : α → Scan) (xs : List α) : Scan :=
  xs.zipIdx.flatMap fun x => (f x.1).map fun s => (x.2 :: s.1, s.2)

section Numbered

variable {α : Type} {f : α → Scan} {xs : List α}

theorem mem_numbered {place : List Nat} {s : Name × Referrer} : (place, s) ∈ numbered f xs ↔
    ∃ i rest x, place = i :: rest ∧ xs[i]? = some x ∧ (rest, s) ∈ f x := by
  simp only [numbered, List.mem_flatMap, List.mem_map, Prod.exists, List.mem_zipIdx_iff_getElem?]
  constructor
  · rintro ⟨x, i, hx, rest, name, referrer, hmem, heq⟩
    rw [Prod.mk.injEq] at heq
    obtain ⟨rfl, rfl⟩ := heq
    exact ⟨i, rest, x, rfl, hx, hmem⟩
  · rintro ⟨i, rest, x, rfl, hx, hmem⟩
    exact ⟨x, i, hx, rest, s.1, s.2, hmem, rfl⟩

/-- Numbers keep what is scanned in order. -/
theorem inOrder_numbered (h : ∀ x ∈ xs, (f x).InOrder) : (numbered f xs).InOrder := by
  have hnumbers : (xs.zipIdx).Pairwise fun x y => x.2 < y.2 := by
    rw [← List.pairwise_map, List.zipIdx_map_snd]
    exact List.pairwise_lt_range'
  refine List.pairwise_flatMap.2 ⟨?_, hnumbers.imp ?_⟩
  · -- Within an element the rest of the place decides.
    intro x hx
    have hmem : x.1 ∈ xs := List.mem_of_getElem? (List.mem_zipIdx_iff_getElem?.1 hx)
    rw [List.pairwise_map]
    exact (h x.1 hmem).imp fun hlt => List.cons_lt_cons_iff.2 (Or.inr ⟨rfl, hlt⟩)
  · -- Between elements the numbers decide.
    intro x y hlt s hs s' hs'
    obtain ⟨_, -, rfl⟩ := List.mem_map.1 hs
    obtain ⟨_, -, rfl⟩ := List.mem_map.1 hs'
    exact List.cons_lt_cons_iff.2 (Or.inl hlt)

theorem map_snd_numbered :
    (numbered f xs).map Prod.snd = xs.flatMap fun x => (f x).map Prod.snd := by
  have hpieces : (numbered f xs).map Prod.snd
      = (xs.zipIdx.map Prod.fst).flatMap fun x => (f x).map Prod.snd := by
    simp only [numbered, List.map_flatMap, List.map_map, List.flatMap_map]
    rfl
  rw [hpieces, List.zipIdx_map_fst]

/-- What comes in front of numbered parts has the empty place. -/
theorem Scan.InOrder.cons_numbered {s : Name × Referrer} (h : (numbered f xs).InOrder) :
    Scan.InOrder (([], s) :: numbered f xs) := by
  refine List.pairwise_cons.2 ⟨?_, h⟩
  rintro ⟨place, s'⟩ hmem
  obtain ⟨i, rest, x, rfl, -, -⟩ := mem_numbered.1 hmem
  exact List.nil_lt_cons i rest

end Numbered

/-- Searching a scan in order finds the first place at which there is something to find. -/
theorem findSome?_eq_some_iff_first {β : Type} {s : Scan} (horder : s.InOrder)
    {find : Name × Referrer → Option β} {b : β} :
    (s.map Prod.snd).findSome? find = some b ↔
      ∃ place x, (place, x) ∈ s ∧ find x = some b ∧
        ∀ other y, (other, y) ∈ s → find y ≠ none → ¬ other < place := by
  -- Induction on the scan; every place behind its first one comes later.
  induction s with
  | nil => simp
  | cons e s ih =>
    obtain ⟨place, x⟩ := e
    obtain ⟨hfirst, hrest⟩ := List.pairwise_cons.1 horder
    rw [List.map_cons, List.findSome?_cons]
    cases hx : find x with
    | some c =>
      constructor
      · intro h
        obtain rfl : c = b := Option.some.inj h
        refine ⟨place, x, List.mem_cons_self, hx, fun other y hmem _ hlt => ?_⟩
        rcases List.mem_cons.1 hmem with heq | hmem
        · rw [Prod.mk.injEq] at heq
          rw [heq.1] at hlt
          exact List.lt_irrefl _ hlt
        · exact List.lt_asymm hlt (hfirst _ hmem)
      · rintro ⟨other, y, hmem, hy, hleast⟩
        -- No place is before the first one.
        have hnot := hleast place x List.mem_cons_self (by simp [hx])
        rcases List.mem_cons.1 hmem with heq | hmem
        · rw [Prod.mk.injEq] at heq
          rw [← hy, heq.2, hx]
        · exact absurd (hfirst _ hmem) hnot
    | none =>
      show (s.map Prod.snd).findSome? find = some b ↔ _
      rw [ih hrest]
      constructor
      · rintro ⟨other, y, hmem, hy, hleast⟩
        refine ⟨other, y, List.mem_cons_of_mem _ hmem, hy, fun third z hz hfound => ?_⟩
        rcases List.mem_cons.1 hz with heq | hz
        · rw [Prod.mk.injEq] at heq
          rw [heq.2] at hfound
          exact absurd hx hfound
        · exact hleast third z hz hfound
      · rintro ⟨other, y, hmem, hy, hleast⟩
        rcases List.mem_cons.1 hmem with heq | hmem
        · rw [Prod.mk.injEq] at heq
          rw [heq.2, hx] at hy
          cases hy
        · exact ⟨other, y, hmem, hy, fun third z hz => hleast third z (List.mem_cons_of_mem _ hz)⟩

/-! ## The scan of a document -/

section Scans

variable (ignore : Option Name) (type : Name)

/-- The scan of an argument of a field. -/
def argumentScan (field : Name) (a : InputValue) : Scan :=
  if isIgnored ignore a.directives then []
  else [([], a.type.baseName, .element (.argument type field a.name))]

/-- The scan of a field. -/
def fieldScan (f : Field) : Scan :=
  if isIgnored ignore f.directives then []
  else ([], f.type.baseName, .element (.member type f.name))
    :: numbered (argumentScan ignore type f.name) f.arguments

/-- The scan of an input field. -/
def inputFieldScan (v : InputValue) : Scan :=
  if isIgnored ignore v.directives then []
  else [([], v.type.baseName, .element (.member type v.name))]

/-- The scan of the name of an interface or of a member of a union. -/
def nameScan (name : Name) : Scan := [([], name, .element (.type type))]

/-- The scan of the body of a declaration. -/
def bodyScan (b : TypeBody) : Scan :=
  numbered id [numbered (fieldScan ignore type) (fieldsOf b),
    numbered (nameScan type) (interfacesOf b), numbered (nameScan type) (unionMembersOf b),
    numbered (inputFieldScan ignore type) (inputFieldsOf b)]

/-- The scan of an extension. -/
def extensionScan (t : TypeDecl) : Scan :=
  ([], t.name, .extension t.name) :: bodyScan ignore t.name t.body

/-- The scan of a document. -/
def Document.scan (d : Document) : Scan :=
  numbered id [numbered (fun t => bodyScan ignore t.name t.body) d.definedTypes.values,
    numbered (extensionScan ignore) d.extensions]

variable {ignore type}

theorem inOrder_fieldScan (f : Field) : (fieldScan ignore type f).InOrder := by
  unfold fieldScan
  split
  · exact .nil
  · refine (inOrder_numbered fun a _ => ?_).cons_numbered
    unfold argumentScan
    split
    · exact .nil
    · exact List.pairwise_singleton _ _

theorem inOrder_inputFieldScan (v : InputValue) : (inputFieldScan ignore type v).InOrder := by
  unfold inputFieldScan
  split
  · exact .nil
  · exact List.pairwise_singleton _ _

theorem inOrder_bodyScan (b : TypeBody) : (bodyScan ignore type b).InOrder := by
  have hname : ∀ name, (nameScan type name).InOrder := fun _ => List.pairwise_singleton _ _
  apply inOrder_numbered
  simp only [List.mem_cons, List.not_mem_nil, or_false, forall_eq_or_imp, forall_eq, id]
  exact ⟨inOrder_numbered fun f _ => inOrder_fieldScan f, inOrder_numbered fun n _ => hname n,
    inOrder_numbered fun n _ => hname n, inOrder_numbered fun v _ => inOrder_inputFieldScan v⟩

/-- The places of a document are scanned in order. -/
theorem Document.inOrder_scan (d : Document) : (d.scan ignore).InOrder := by
  have hextension : ∀ t, (extensionScan ignore t).InOrder := fun t =>
    (inOrder_bodyScan t.body).cons_numbered
  apply inOrder_numbered
  simp only [List.mem_cons, List.not_mem_nil, or_false, forall_eq_or_imp, forall_eq, id]
  exact ⟨inOrder_numbered fun t _ => inOrder_bodyScan t.body,
    inOrder_numbered fun t _ => hextension t⟩

variable {place : List Nat} {name : Name} {referrer : Referrer}

theorem mem_fieldScan {f : Field} : (place, name, referrer) ∈ fieldScan ignore type f ↔
    isIgnored ignore f.directives = false ∧
      ((place = [] ∧ name = f.type.baseName ∧ referrer = .element (.member type f.name)) ∨
        ∃ j a, place = [j] ∧ f.arguments[j]? = some a ∧ isIgnored ignore a.directives = false ∧
          name = a.type.baseName ∧ referrer = .element (.argument type f.name a.name)) := by
  have hargument : ∀ rest a, (rest, name, referrer) ∈ argumentScan ignore type f.name a ↔
      rest = [] ∧ isIgnored ignore a.directives = false ∧ name = a.type.baseName ∧
        referrer = .element (.argument type f.name a.name) := by
    intro rest a
    unfold argumentScan
    cases isIgnored ignore a.directives <;> simp
  unfold fieldScan
  cases isIgnored ignore f.directives with
  | true => simp
  | false =>
    simp only [Bool.false_eq_true, if_false, List.mem_cons, Prod.mk.injEq, mem_numbered, hargument,
      true_and]
    refine or_congr_right ⟨?_, ?_⟩
    · rintro ⟨j, _, a, rfl, ha, rfl, hopen, hname, hreferrer⟩
      exact ⟨j, a, rfl, ha, hopen, hname, hreferrer⟩
    · rintro ⟨j, a, rfl, ha, hopen, hname, hreferrer⟩
      exact ⟨j, [], a, rfl, ha, rfl, hopen, hname, hreferrer⟩

theorem mem_inputFieldScan {v : InputValue} :
    (place, name, referrer) ∈ inputFieldScan ignore type v ↔ place = [] ∧
      isIgnored ignore v.directives = false ∧ name = v.type.baseName ∧
        referrer = .element (.member type v.name) := by
  unfold inputFieldScan
  cases isIgnored ignore v.directives <;> simp

theorem mem_nameScan {n : Name} : (place, name, referrer) ∈ nameScan type n ↔
    place = [] ∧ name = n ∧ referrer = .element (.type type) := by
  simp [nameScan]

/-- The scan of a body lists what is scanned in it. -/
theorem mem_bodyScan_iff {b : TypeBody} : (place, name, referrer) ∈ bodyScan ignore type b ↔
    ScansBody ignore type b place name referrer := by
  constructor
  · intro h
    -- The parts of a body have the numbers zero to three.
    obtain ⟨part, rest, s, rfl, hpart, hmem⟩ := mem_numbered.1 h
    match part with
    | 0 =>
      obtain rfl : _ = s := Option.some.inj hpart
      obtain ⟨i, rest, f, rfl, hf, hmem⟩ := mem_numbered.1 hmem
      obtain ⟨hopen, ⟨rfl, rfl, rfl⟩ | ⟨j, a, rfl, ha, hopen', rfl, rfl⟩⟩ := mem_fieldScan.1 hmem
      · exact .field hf hopen
      · exact .argument hf hopen ha hopen'
    | 1 =>
      obtain rfl : _ = s := Option.some.inj hpart
      obtain ⟨i, rest, n, rfl, hn, hmem⟩ := mem_numbered.1 hmem
      obtain ⟨rfl, rfl, rfl⟩ := mem_nameScan.1 hmem
      exact .interface hn
    | 2 =>
      obtain rfl : _ = s := Option.some.inj hpart
      obtain ⟨i, rest, n, rfl, hn, hmem⟩ := mem_numbered.1 hmem
      obtain ⟨rfl, rfl, rfl⟩ := mem_nameScan.1 hmem
      exact .unionMember hn
    | 3 =>
      obtain rfl : _ = s := Option.some.inj hpart
      obtain ⟨i, rest, v, rfl, hv, hmem⟩ := mem_numbered.1 hmem
      obtain ⟨rfl, hopen, rfl, rfl⟩ := mem_inputFieldScan.1 hmem
      exact .inputField hv hopen
  · intro h
    have hpart : ∀ (part : Nat) {α : Type} {f : α → Scan} {xs : List α} {i : Nat}
        {rest : List Nat} {x : α},
        [numbered (fieldScan ignore type) (fieldsOf b),
          numbered (nameScan type) (interfacesOf b), numbered (nameScan type) (unionMembersOf b),
          numbered (inputFieldScan ignore type) (inputFieldsOf b)][part]? = some (numbered f xs) →
        xs[i]? = some x → (rest, name, referrer) ∈ f x →
        (part :: i :: rest, name, referrer) ∈ bodyScan ignore type b := by
      intro part α f xs i rest x hpart hx hmem
      exact mem_numbered.2 ⟨part, _, _, rfl, hpart, mem_numbered.2 ⟨i, rest, x, rfl, hx, hmem⟩⟩
    cases h with
    | @field i f hf hopen =>
      exact hpart 0 rfl hf (mem_fieldScan.2 ⟨hopen, Or.inl ⟨rfl, rfl, rfl⟩⟩)
    | @argument i j f a hf hopen ha hopen' =>
      exact hpart 0 rfl hf
        (mem_fieldScan.2 ⟨hopen, Or.inr ⟨j, a, rfl, ha, hopen', rfl, rfl⟩⟩)
    | interface hn => exact hpart 1 rfl hn (mem_nameScan.2 ⟨rfl, rfl, rfl⟩)
    | unionMember hn => exact hpart 2 rfl hn (mem_nameScan.2 ⟨rfl, rfl, rfl⟩)
    | inputField hv hopen =>
      exact hpart 3 rfl hv (mem_inputFieldScan.2 ⟨rfl, hopen, rfl, rfl⟩)

/-- The scan of a document lists what is scanned in it. -/
theorem Document.mem_scan_iff {d : Document} : (place, name, referrer) ∈ d.scan ignore ↔
    d.ScansAt ignore place name referrer := by
  constructor
  · intro h
    obtain ⟨part, rest, s, rfl, hpart, hmem⟩ := mem_numbered.1 h
    match part with
    | 0 =>
      obtain rfl : _ = s := Option.some.inj hpart
      obtain ⟨i, rest, t, rfl, ht, hmem⟩ := mem_numbered.1 hmem
      exact .definition ht (mem_bodyScan_iff.1 hmem)
    | 1 =>
      obtain rfl : _ = s := Option.some.inj hpart
      obtain ⟨i, rest, t, rfl, ht, hmem⟩ := mem_numbered.1 hmem
      rcases List.mem_cons.1 hmem with heq | hmem
      · simp only [Prod.mk.injEq] at heq
        obtain ⟨rfl, rfl, rfl⟩ := heq
        exact .extended ht
      · exact .extension ht (mem_bodyScan_iff.1 hmem)
  · intro h
    have hpart : ∀ (part : Nat) {f : TypeDecl → Scan} {ts : List TypeDecl} {i : Nat}
        {rest : List Nat} {t : TypeDecl},
        [numbered (fun t => bodyScan ignore t.name t.body) d.definedTypes.values,
          numbered (extensionScan ignore) d.extensions][part]? = some (numbered f ts) →
        ts[i]? = some t → (rest, name, referrer) ∈ f t →
        (part :: i :: rest, name, referrer) ∈ d.scan ignore := by
      intro part f ts i rest t hpart ht hmem
      exact mem_numbered.2 ⟨part, _, _, rfl, hpart, mem_numbered.2 ⟨i, rest, t, rfl, ht, hmem⟩⟩
    cases h with
    | definition ht hbody => exact hpart 0 rfl ht (mem_bodyScan_iff.2 hbody)
    | extended ht => exact hpart 1 rfl ht List.mem_cons_self
    | extension ht hbody =>
      exact hpart 1 rfl ht (List.mem_cons_of_mem _ (mem_bodyScan_iff.2 hbody))

/-! ## Mentions and the scan -/

/-- The name in a mention, with the element that an error reports. That an object may stand for an
    interface is said about types that were named before. -/
def Mention.scanned? : Mention → Option (Name × Referrer)
  | .extends type => some (type, .extension type)
  | .refers _ target _ referrer => some (target, referrer)
  | .standsFor _ _ => none

/-- Elements that are left out one by one are those that a filter leaves out. -/
private theorem flatMap_unless {α β : Type} (skip : α → Bool) (f : α → β) (xs : List α) :
    (xs.flatMap fun x => if skip x then [] else [f x]) = (xs.filter fun x => !skip x).map f := by
  induction xs with
  | nil => rfl
  | cons x xs ih => cases h : skip x <;> simp [h, ih]

/-- A list whose images are all kept is mapped. -/
private theorem filterMap_map_eq_map {α β γ : Type} {f : α → β} {g : β → Option γ} {k : α → γ}
    (h : ∀ x, g (f x) = some (k x)) (xs : List α) : (xs.map f).filterMap g = xs.map k := by
  induction xs with
  | nil => rfl
  | cons x xs ih => simp [h, ih]

theorem map_snd_fieldScan (f : Field) : (fieldScan ignore type f).map Prod.snd
    = (fieldMentions ignore type f).filterMap Mention.scanned? := by
  have hargument : ∀ a, (argumentScan ignore type f.name a).map Prod.snd
      = if isIgnored ignore a.directives then []
        else [(a.type.baseName, Referrer.element (.argument type f.name a.name))] := by
    intro a
    unfold argumentScan
    split
    · rfl
    · rfl
  unfold fieldScan fieldMentions
  split
  · rfl
  · rw [List.map_cons, map_snd_numbered]
    simp only [hargument, flatMap_unless]
    -- The field itself comes first on both sides.
    refine congrArg (List.cons _) (Eq.symm ?_)
    exact filterMap_map_eq_map (g := Mention.scanned?) (fun _ => rfl) _

theorem map_snd_inputFieldScan (v : InputValue) : (inputFieldScan ignore type v).map Prod.snd
    = (inputFieldMentions ignore type v).filterMap Mention.scanned? := by
  unfold inputFieldScan inputFieldMentions
  split
  · rfl
  · rfl

/-- The scan of a body names what the body mentions. -/
theorem map_snd_bodyScan (b : TypeBody) : (bodyScan ignore type b).map Prod.snd
    = (bodyMentions ignore type b).filterMap Mention.scanned? := by
  have hnames : ∀ names : List Name, (names.flatMap fun n => (nameScan type n).map Prod.snd)
      = names.map fun n => (n, Referrer.element (.type type)) :=
    fun names => (List.map_eq_flatMap).symm
  have hstanding : ∀ names : List Name, (names.map fun n => (n, Referrer.element (.type type)))
      = (names.flatMap fun i => [interfaceMention type i, .standsFor i type]).filterMap
        Mention.scanned? := by
    intro names
    rw [List.filterMap_flatMap, List.map_eq_flatMap]
    rfl
  simp only [bodyScan, map_snd_numbered, List.flatMap_cons, List.flatMap_nil, id, hnames,
    map_snd_fieldScan, map_snd_inputFieldScan]
  cases b with
  | scalar | enum _ => rfl
  | object interfaces fields =>
    simp [fieldsOf, interfacesOf, unionMembersOf, inputFieldsOf, bodyMentions,
      List.filterMap_flatMap, hstanding]
  | interface interfaces fields =>
    have hnamed := filterMap_map_eq_map (f := interfaceMention type) (g := Mention.scanned?)
      (fun _ => rfl) interfaces
    simp only [fieldsOf, interfacesOf, unionMembersOf, inputFieldsOf, bodyMentions,
      List.filterMap_append, List.filterMap_flatMap, hnamed, List.flatMap_nil, List.map_nil,
      List.append_nil]
  | union members =>
    simp only [fieldsOf, interfacesOf, unionMembersOf, inputFieldsOf, bodyMentions,
      List.flatMap_nil, List.map_nil, List.append_nil, List.nil_append]
    exact (filterMap_map_eq_map (g := Mention.scanned?) (fun _ => rfl) members).symm
  | inputObject fields =>
    simp [fieldsOf, interfacesOf, unionMembersOf, inputFieldsOf, bodyMentions,
      List.filterMap_flatMap]

/-- The scan of a document names what the document mentions. -/
theorem Document.map_snd_scan (d : Document) : (d.scan ignore).map Prod.snd
    = (d.mentions ignore).filterMap Mention.scanned? := by
  have hextension : ∀ t, (extensionScan ignore t).map Prod.snd
      = (extensionMentions ignore t).filterMap Mention.scanned? := by
    intro t
    rw [extensionScan, extensionMentions, List.map_cons, map_snd_bodyScan]
    rfl
  simp only [scan, mentions, map_snd_numbered, List.flatMap_cons, List.flatMap_nil, id,
    map_snd_bodyScan, hextension, List.filterMap_append, List.filterMap_flatMap, List.append_nil]

end Scans

/-! ## Names that are missing -/

/-- A search past elements that are left out is one in what is left. -/
private theorem findSome?_filterMap_eq {α β γ : Type} {f : α → Option β} {g : β → Option γ}
    {k : α → Option γ} {xs : List α} (h : ∀ x ∈ xs, k x = (f x).bind g) :
    (xs.filterMap f).findSome? g = xs.findSome? k := by
  induction xs with
  | nil => rfl
  | cons x xs ih =>
    have hrest := ih fun y hy => h y (List.mem_cons_of_mem _ hy)
    rw [List.findSome?_cons, h x List.mem_cons_self]
    cases hx : f x with
    | none =>
      rw [List.filterMap_cons_none hx]
      exact hrest
    | some y =>
      rw [List.filterMap_cons_some hx, List.findSome?_cons, hrest]
      rfl

namespace Document

/-- A name that is scanned is missing if no type of that name is defined. Built-in scalars are
    missing only where they are extended. -/
def Lacks (d : Document) (name : Name) (referrer : Referrer) : Prop :=
  name ∉ d.definedTypes.keys ∧ (isBuiltIn name = true → referrer = .extension name)

instance (d : Document) (name : Name) (referrer : Referrer) : Decidable (d.Lacks name referrer) :=
  inferInstanceAs (Decidable (_ ∧ _))

/-- The failure of a name that is missing. -/
def lackError? (d : Document) (s : Name × Referrer) : Option Error :=
  if d.Lacks s.1 s.2 then some (.unknownType s.1 s.2) else none

variable {d : Document} {ignore : Option Name}

theorem lackError?_eq_some_iff {s : Name × Referrer} {e : Error} :
    d.lackError? s = some e ↔ d.Lacks s.1 s.2 ∧ e = .unknownType s.1 s.2 := by
  unfold lackError?
  split
  · rename_i h
    simp [h, eq_comm]
  · rename_i h
    simp [h]

theorem lackError?_eq_none_iff {s : Name × Referrer} :
    d.lackError? s = none ↔ ¬ d.Lacks s.1 s.2 := by
  simp [lackError?]

/-- References are made by elements, not by extensions as such. -/
theorem exists_element_of_mem_bodyMentions {type : Name} {b : TypeBody} {source target : Name}
    {relation : Relation} {referrer : Referrer}
    (h : .refers source target relation referrer ∈ bodyMentions ignore type b) :
    ∃ c, referrer = .element c := by
  rcases mem_bodyMentions.1 h with ⟨f, hf, hx⟩ | ⟨v, hv, hx⟩ | ⟨m, hm, hx⟩ | ⟨i, hi, hx | ⟨-, hx⟩⟩
  · obtain ⟨-, hx | ⟨a, -, -, hx⟩⟩ := mem_fieldMentions.1 hx
    · cases hx
      exact ⟨_, rfl⟩
    · cases hx
      exact ⟨_, rfl⟩
  · obtain ⟨-, hx⟩ := mem_inputFieldMentions.1 hx
    cases hx
    exact ⟨_, rfl⟩
  · cases hx
    exact ⟨_, rfl⟩
  · cases hx
    exact ⟨_, rfl⟩
  · cases hx

/-- A mention is dangling if the name that is scanned in it is missing. -/
theorem danglingError?_eq_lackError? {x : Mention} (hx : x ∈ d.mentions ignore) :
    danglingError? d.definedTypes x = x.scanned?.bind d.lackError? := by
  rcases x with type | ⟨source, target, relation, referrer⟩ | ⟨interface, object⟩
  · show _ = d.lackError? (type, .extension type)
    by_cases hdefined : type ∈ d.definedTypes.keys <;>
      simp [danglingError?, lackError?, Lacks, hdefined]
  · have helement : ∃ c, referrer = .element c := by
      rcases List.mem_append.1 hx with hx | hx
      · obtain ⟨t, -, hx⟩ := List.mem_flatMap.1 hx
        exact exists_element_of_mem_bodyMentions hx
      · obtain ⟨t, -, hx⟩ := List.mem_flatMap.1 hx
        rcases List.mem_cons.1 hx with hx | hx
        · cases hx
        · exact exists_element_of_mem_bodyMentions hx
    obtain ⟨c, rfl⟩ := helement
    -- An element refers, so a built-in scalar is not missing.
    show _ = d.lackError? (target, .element c)
    by_cases hdefined : target ∈ d.definedTypes.keys
    · simp [danglingError?, lackError?, Lacks, hdefined]
    · cases hscalar : isBuiltIn target with
      | true => simp [danglingError?, lackError?, Lacks, hscalar]
      | false => simp [danglingError?, lackError?, Lacks, hdefined, hscalar]
  · rfl

/-- The first dangling mention is the first missing name of the scan. -/
theorem findSome?_mentions : (d.mentions ignore).findSome? (danglingError? d.definedTypes)
    = ((d.scan ignore).map Prod.snd).findSome? d.lackError? := by
  rw [map_snd_scan]
  exact (findSome?_filterMap_eq fun x hx => danglingError?_eq_lackError? hx).symm

/-! ## The outcome of building a graph -/

/-- The graph fails with the missing name at the first place with one. -/
theorem typeGraph_eq_error_iff {e : Error} : d.typeGraph ignore = .error e ↔
    ∃ place name referrer, d.ScansAt ignore place name referrer ∧ d.Lacks name referrer ∧
      e = .unknownType name referrer ∧
      ∀ other name' referrer', d.ScansAt ignore other name' referrer' → d.Lacks name' referrer' →
        ¬ other < place := by
  have hsearch : d.typeGraph ignore = .error e ↔
      (d.mentions ignore).findSome? (danglingError? d.definedTypes) = some e := by
    simp only [typeGraph]
    cases (d.mentions ignore).findSome? (danglingError? d.definedTypes) <;> simp
  rw [hsearch, findSome?_mentions, findSome?_eq_some_iff_first d.inOrder_scan]
  simp only [Prod.exists, Prod.forall, mem_scan_iff, lackError?_eq_some_iff, ne_eq,
    lackError?_eq_none_iff, Classical.not_not, and_assoc]

/-- There is a graph if no name is missing. -/
theorem exists_typeGraph_iff : (∃ g, d.typeGraph ignore = .ok g) ↔
    ∀ place name referrer, d.ScansAt ignore place name referrer → ¬ d.Lacks name referrer := by
  have hsearch : (∃ g, d.typeGraph ignore = .ok g) ↔
      (d.mentions ignore).findSome? (danglingError? d.definedTypes) = none := by
    simp only [typeGraph]
    cases (d.mentions ignore).findSome? (danglingError? d.definedTypes) <;> simp
  rw [hsearch, findSome?_mentions, List.findSome?_eq_none_iff]
  simp only [List.forall_mem_map, Prod.forall, mem_scan_iff, lackError?_eq_none_iff]

/-- Edges lead to defined types, from defined types or from built-in scalars that an object names as
    interfaces. -/
theorem edge_of_typeGraph {g : TypeGraph} (h : d.typeGraph ignore = .ok g) {source target : Name}
    (hedge : target ∈ g.successors source) : target ∈ d.definedTypes.keys ∧
      (source ∈ d.definedTypes.keys ∨ (isBuiltIn source = true ∧
        ∃ u ∈ d.typeDeclarations, u.body.kind = .object ∧ source ∈ interfacesOf u.body)) := by
  obtain ⟨hmentioned, rfl⟩ := (d.typeGraph_eq_ok_iff ignore g).1 h
  have hlead := (mem_successors_iff_leadsTo hmentioned source target).1 hedge
  refine ⟨hlead.target_defined hmentioned, ?_⟩
  cases hlead with
  | refers ht _ _ _ =>
    exact Or.inl ((d.mem_keys_types _).1 ((OrderedMap.mem_keys_iff _ _).2 ⟨_, ht⟩))
  | @implementedBy t u ht hu hobject hi =>
    obtain ⟨hdeclared, -⟩ := (mem_declarations_iff ht u).1 hu
    -- The interface is named, so it is defined unless it is a built-in scalar.
    have hrefers : RefersTo ignore u.body source := .interface hi
    obtain ⟨relation, referrer, hx⟩ := hrefers.exists_mention u.name
    have hnamed := danglingError?_refers_eq_none_iff.1
      (hmentioned _ (mem_mentions_of_mem_bodyMentions hdeclared hx))
    cases hscalar : isBuiltIn source with
    | true => exact Or.inr ⟨rfl, u, hdeclared, hobject, hi⟩
    | false => exact Or.inl (hnamed hscalar)

/-- A graph cannot be built exactly if some scanned name is missing, and then the first one is
    reported, with the element that refers to it. Otherwise there is a graph, and its edges lead
    to defined types, from defined types or from built-in scalars that an object names as
    interfaces. -/
theorem typeGraph_scan (d : Document) (ignore : Option Name) :
    (∀ e, d.typeGraph ignore = .error e ↔
      ∃ place name referrer, d.ScansAt ignore place name referrer ∧ d.Lacks name referrer ∧
        e = .unknownType name referrer ∧
        ∀ other name' referrer', d.ScansAt ignore other name' referrer' →
          d.Lacks name' referrer' → ¬ other < place) ∧
    ((∃ g, d.typeGraph ignore = .ok g) ↔
      ∀ place name referrer, d.ScansAt ignore place name referrer → ¬ d.Lacks name referrer) ∧
    ∀ g, d.typeGraph ignore = .ok g → ∀ source target, target ∈ g.successors source →
      target ∈ d.definedTypes.keys ∧ (source ∈ d.definedTypes.keys ∨ (isBuiltIn source = true ∧
        ∃ u ∈ d.typeDeclarations, u.body.kind = .object ∧ source ∈ interfacesOf u.body)) :=
  ⟨fun _ => typeGraph_eq_error_iff, exists_typeGraph_iff, fun _ h _ _ hedge =>
    edge_of_typeGraph h hedge⟩

end Document

/-! ## Shops without some of their types -/

/-- A shop in which a filter, an item, a node and a ledger are missing, the filter behind a hidden
    argument. -/
def unfinishedShop : Document := ⟨[
  .typeExtension ⟨none, "Ledger", [], .object [] [⟨none, "sum", [], .named "Int", []⟩]⟩,
  .type ⟨none, "Query", [], .object [] [⟨none, "shop", [⟨none, "by", .named "Filter", none,
    [⟨"hidden", []⟩]⟩], .named "Shop", []⟩, ⟨none, "item", [], .named "Item", []⟩]⟩,
  .type ⟨none, "Shop", [], .object ["Node"] []⟩]⟩

/-- The item is reported: the ledger is extended, which is scanned after all definitions, and the
    node is named in a later definition. -/
theorem unfinishedShop_reports_item : ∃ place name referrer,
    unfinishedShop.ScansAt (some "hidden") place name referrer ∧
    unfinishedShop.Lacks name referrer ∧ name = "Item" ∧
    referrer = .element (.member "Query" "item") ∧
    ∀ other name' referrer', unfinishedShop.ScansAt (some "hidden") other name' referrer' →
      unfinishedShop.Lacks name' referrer' → ¬ other < place := by
  obtain ⟨hreported, -, -⟩ := unfinishedShop.typeGraph_scan (some "hidden")
  have hrun : unfinishedShop.typeGraph (some "hidden")
      = .error (.unknownType "Item" (.element (.member "Query" "item"))) := rfl
  obtain ⟨place, name, referrer, hscan, hlacks, heq, hfirst⟩ := (hreported _).1 hrun
  cases heq
  exact ⟨place, _, _, hscan, hlacks, rfl, rfl, hfirst⟩

/-- A shop that extends a built-in scalar. -/
def extendedScalarShop : Document := ⟨[
  .type ⟨none, "Query", [], .object [] [⟨none, "id", [], .named "ID", []⟩]⟩,
  .typeExtension ⟨none, "ID", [⟨"specifiedBy", [⟨"url", .string ⟨"u", false⟩⟩]⟩], .scalar⟩]⟩

/-- It has no graph, although every scanned name is that of a defined type or of a built-in
    scalar. -/
theorem extendedScalarShop_has_no_graph :
    extendedScalarShop.typeGraph none = .error (.unknownType "ID" (.extension "ID")) ∧
    ∀ place name referrer, extendedScalarShop.ScansAt none place name referrer →
      name ∈ extendedScalarShop.definedTypes.keys ∨ isBuiltIn name = true := by
  refine ⟨rfl, fun place name referrer hscan => ?_⟩
  have hall : ∀ s ∈ extendedScalarShop.scan none,
      s.2.1 ∈ extendedScalarShop.definedTypes.keys ∨ isBuiltIn s.2.1 = true := by
    decide +kernel
  exact hall _ (Document.mem_scan_iff.2 hscan)

end SchemaView
