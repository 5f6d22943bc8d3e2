import SchemaView.Proofs.MarkedReach

/-!
# What a document reaches, by its declarations

Reachability without a graph. `RefersTo` says, construct by construct, to which types a declaration
refers, `Document.LeadsTo` adds up the declarations of a type and the step from an interface to the
objects that implement it, and `Document.Derivable` closes a set of defined types under such steps.
This file proves that walks through the graph of a document enter exactly the derivable types.

## Key results

- `mem_bodyMentions`: what a declaration mentions, kind by kind
- `mem_successors_iff_leadsTo`: edges are the steps that the declarations give
- `reaches_iff_derivable`: the graph reaches the derivable types
- `reachable_iff_derivable`: what the roots reach, and what they do not
-/

namespace SchemaView

open Sdl

/-! ## Parts of declarations -/

/-- The fields that the declaration of an object or interface declares. -/
def fieldsOf : TypeBody → List Field
  | .object _ fields | .interface _ fields => fields
  | .scalar | .union _ | .enum _ | .inputObject _ => []

/-- The input fields that the declaration of an input object declares. -/
def inputFieldsOf : TypeBody → List InputValue
  | .inputObject fields => fields
  | .scalar | .object _ _ | .interface _ _ | .union _ | .enum _ => []

/-- The interfaces that a declaration names. -/
def interfacesOf : TypeBody → List Name
  | .object interfaces _ | .interface interfaces _ => interfaces
  | .scalar | .union _ | .enum _ | .inputObject _ => []

/-- The members that the declaration of a union names. -/
def unionMembersOf : TypeBody → List Name
  | .union members => members
  | .scalar | .object _ _ | .interface _ _ | .enum _ | .inputObject _ => []

/-! ## Steps from type to type -/

/-- The types to which a declaration refers past ignored fields, input fields and arguments. -/
inductive RefersTo (ignore : Option Name) (b : TypeBody) : Name → Prop
  | field {f : Field} (hf : f ∈ fieldsOf b) (hopen : isIgnored ignore f.directives = false) :
      RefersTo ignore b f.type.baseName
  | argument {f : Field} {a : InputValue} (hf : f ∈ fieldsOf b)
      (hopen : isIgnored ignore f.directives = false) (ha : a ∈ f.arguments)
      (hopen' : isIgnored ignore a.directives = false) : RefersTo ignore b a.type.baseName
  | inputField {v : InputValue} (hv : v ∈ inputFieldsOf b)
      (hopen : isIgnored ignore v.directives = false) : RefersTo ignore b v.type.baseName
  | unionMember {m : Name} (hm : m ∈ unionMembersOf b) : RefersTo ignore b m
  | interface {i : Name} (hi : i ∈ interfacesOf b) : RefersTo ignore b i

namespace Document

/-- One step from a type: along a reference in its definition or an extension of it, unless the
    reference is to a built-in scalar, or to a type that is declared as an object and names it as
    an interface. -/
inductive LeadsTo (d : Document) (ignore : Option Name) : Name → Name → Prop
  | refers {source target : Name} {t : NamedType} {u : TypeDecl}
      (ht : d.types.get? source = some t) (hu : u ∈ t.declarations)
      (hrefers : RefersTo ignore u.body target) (hscalar : isBuiltIn target = false) :
      LeadsTo d ignore source target
  | implementedBy {interface object : Name} {t : NamedType} {u : TypeDecl}
      (ht : d.types.get? object = some t) (hu : u ∈ t.declarations)
      (hobject : u.body.kind = .object) (hi : interface ∈ interfacesOf u.body) :
      LeadsTo d ignore interface object

/-- The defined types that steps lead to from some types, where neither these nor those on the way
    have a definition that is ignored. -/
inductive Derivable (d : Document) (ignore : Option Name) (start : Name → Prop) : Name → Prop
  | start {n : Name} {t : TypeDecl} (hstart : start n) (ht : d.definedTypes.get? n = some t)
      (hopen : isIgnored ignore t.directives = false) : Derivable d ignore start n
  | step {s n : Name} {t : TypeDecl} (hs : Derivable d ignore start s)
      (hlead : d.LeadsTo ignore s n) (ht : d.definedTypes.get? n = some t)
      (hopen : isIgnored ignore t.directives = false) : Derivable d ignore start n

end Document

/-! ## Mentions and edges -/

variable {ignore : Option Name}

/-- What a declaration mentions: in fields, in input fields, as members of a union, and as
    interfaces, for which an object stands. -/
theorem mem_bodyMentions {type : Name} {b : TypeBody} {x : Mention} :
    x ∈ bodyMentions ignore type b ↔
      (∃ f ∈ fieldsOf b, x ∈ fieldMentions ignore type f)
      ∨ (∃ v ∈ inputFieldsOf b, x ∈ inputFieldMentions ignore type v)
      ∨ (∃ m ∈ unionMembersOf b, x = .refers type m .member (.element (.type type)))
      ∨ ∃ i ∈ interfacesOf b, x = interfaceMention type i
          ∨ (b.kind = .object ∧ x = .standsFor i type) := by
  cases b <;>
    simp [bodyMentions, fieldsOf, inputFieldsOf, unionMembersOf, interfacesOf, TypeBody.kind,
      eq_comm]

theorem edge?_refers {source target s t : Name} {relation : Relation} {referrer : Referrer} :
    (Mention.refers source target relation referrer).edge? = some (s, t) ↔
      source = s ∧ target = t ∧ isBuiltIn t = false := by
  by_cases h : isBuiltIn target = true
  · simp only [Mention.edge?, h, if_true, reduceCtorEq, false_iff]
    rintro ⟨-, rfl, hnot⟩
    rw [h] at hnot
    cases hnot
  · simp only [Mention.edge?, h, if_false, Option.some.injEq, Prod.mk.injEq, Bool.false_eq_true]
    constructor
    · rintro ⟨rfl, rfl⟩
      exact ⟨rfl, rfl, Bool.not_eq_true _ ▸ h⟩
    · rintro ⟨rfl, rfl, -⟩
      exact ⟨rfl, rfl⟩

/-- Every reference of a declaration is mentioned. -/
theorem RefersTo.exists_mention {b : TypeBody} {target : Name} (h : RefersTo ignore b target)
    (type : Name) : ∃ relation referrer,
      .refers type target relation referrer ∈ bodyMentions ignore type b := by
  simp only [mem_bodyMentions]
  cases h with
  | @field f hf hopen => exact ⟨_, _, Or.inl ⟨f, hf, mem_fieldMentions.2 ⟨hopen, Or.inl rfl⟩⟩⟩
  | @argument f a hf hopen ha hopen' =>
    exact ⟨_, _, Or.inl ⟨f, hf, mem_fieldMentions.2 ⟨hopen, Or.inr ⟨a, ha, hopen', rfl⟩⟩⟩⟩
  | @inputField v hv hopen =>
    exact ⟨_, _, Or.inr (Or.inl ⟨v, hv, mem_inputFieldMentions.2 ⟨hopen, rfl⟩⟩)⟩
  | unionMember hm => exact ⟨_, _, Or.inr (Or.inr (Or.inl ⟨_, hm, rfl⟩))⟩
  | interface hi => exact ⟨_, _, Or.inr (Or.inr (Or.inr ⟨_, hi, Or.inl rfl⟩))⟩

/-- The edges of a declaration lead from its type along its references, and to its type from the
    interfaces that it names if it declares an object. -/
theorem exists_edge_bodyMentions_iff {type : Name} {b : TypeBody} {source target : Name} :
    (∃ x ∈ bodyMentions ignore type b, x.edge? = some (source, target)) ↔
      (type = source ∧ RefersTo ignore b target ∧ isBuiltIn target = false)
      ∨ (type = target ∧ b.kind = .object ∧ source ∈ interfacesOf b) := by
  constructor
  · rintro ⟨x, hx, he⟩
    rcases mem_bodyMentions.1 hx with ⟨f, hf, hx⟩ | ⟨v, hv, hx⟩ | ⟨m, hm, rfl⟩ | ⟨i, hi, rfl | hx⟩
    · obtain ⟨hopen, rfl | ⟨a, ha, hopen', rfl⟩⟩ := mem_fieldMentions.1 hx
      · obtain ⟨rfl, rfl, hscalar⟩ := edge?_refers.1 he
        exact Or.inl ⟨rfl, .field hf hopen, hscalar⟩
      · obtain ⟨rfl, rfl, hscalar⟩ := edge?_refers.1 he
        exact Or.inl ⟨rfl, .argument hf hopen ha hopen', hscalar⟩
    · obtain ⟨hopen, rfl⟩ := mem_inputFieldMentions.1 hx
      obtain ⟨rfl, rfl, hscalar⟩ := edge?_refers.1 he
      exact Or.inl ⟨rfl, .inputField hv hopen, hscalar⟩
    · obtain ⟨rfl, rfl, hscalar⟩ := edge?_refers.1 he
      exact Or.inl ⟨rfl, .unionMember hm, hscalar⟩
    · obtain ⟨rfl, rfl, hscalar⟩ := edge?_refers.1 he
      exact Or.inl ⟨rfl, .interface hi, hscalar⟩
    · obtain ⟨hobject, rfl⟩ := hx
      cases he
      exact Or.inr ⟨rfl, hobject, hi⟩
  · rintro (⟨rfl, hrefers, hscalar⟩ | ⟨rfl, hobject, hi⟩)
    · obtain ⟨relation, referrer, hx⟩ := hrefers.exists_mention type
      exact ⟨_, hx, edge?_refers.2 ⟨rfl, rfl, hscalar⟩⟩
    · exact ⟨.standsFor source type,
        mem_bodyMentions.2 (Or.inr (Or.inr (Or.inr ⟨source, hi, Or.inr ⟨hobject, rfl⟩⟩))), rfl⟩

namespace Document

variable {d : Document}

/-! ## Declarations of defined types -/

/-- Where all mentioned types are there, every declaration is one of a defined type. -/
theorem name_mem_of_mem_typeDeclarations
    (hmentioned : ∀ x ∈ d.mentions ignore, danglingError? d.definedTypes x = none) {u : TypeDecl}
    (hu : u ∈ d.typeDeclarations) : u.name ∈ d.definedTypes.keys := by
  rcases List.mem_append.1 hu with hu | hu
  · exact (OrderedMap.mem_keys_iff _ _).2 ⟨u, mem_values_definedTypes_iff.1 hu⟩
  · -- An extension mentions the type that it extends.
    have hx : Mention.extends u.name ∈ d.mentions ignore :=
      List.mem_append_right _ (List.mem_flatMap.2 ⟨u, hu, List.mem_cons_self⟩)
    have hnone := hmentioned _ hx
    rw [← OrderedMap.contains_iff]
    simpa [danglingError?] using hnone

/-! ## Edges and steps -/

/-- What a declaration mentions, its document mentions. -/
theorem mem_mentions_of_mem_bodyMentions {u : TypeDecl} (hu : u ∈ d.typeDeclarations)
    {x : Mention} (hx : x ∈ bodyMentions ignore u.name u.body) : x ∈ d.mentions ignore := by
  rcases List.mem_append.1 hu with hu | hu
  · exact List.mem_append_left _ (List.mem_flatMap.2 ⟨u, hu, hx⟩)
  · exact List.mem_append_right _ (List.mem_flatMap.2 ⟨u, hu, List.mem_cons_of_mem _ hx⟩)

/-- The edges of a document are those of its declarations. -/
theorem exists_edge_mentions_iff {e : Name × Name} :
    (∃ x ∈ d.mentions ignore, x.edge? = some e) ↔
      ∃ u ∈ d.typeDeclarations, ∃ x ∈ bodyMentions ignore u.name u.body, x.edge? = some e := by
  constructor
  · rintro ⟨x, hx, he⟩
    rcases List.mem_append.1 hx with hx | hx
    · obtain ⟨u, hu, hx⟩ := List.mem_flatMap.1 hx
      exact ⟨u, List.mem_append_left _ hu, x, hx, he⟩
    · obtain ⟨u, hu, hx⟩ := List.mem_flatMap.1 hx
      -- That an extension extends a type gives no edge.
      rcases List.mem_cons.1 hx with rfl | hx
      · cases he
      · exact ⟨u, List.mem_append_right _ hu, x, hx, he⟩
  · rintro ⟨u, hu, x, hx, he⟩
    exact ⟨x, mem_mentions_of_mem_bodyMentions hu hx, he⟩

/-- Where all mentioned types are there, edges are the steps that the declarations give. -/
theorem mem_successors_iff_leadsTo
    (hmentioned : ∀ x ∈ d.mentions ignore, danglingError? d.definedTypes x = none)
    (source target : Name) :
    target ∈ (d.graphOf ignore).successors source ↔ d.LeadsTo ignore source target := by
  rw [mem_successors_graphOf, exists_edge_mentions_iff]
  simp only [exists_edge_bodyMentions_iff]
  constructor
  · rintro ⟨u, hu, hedge⟩
    have hdefined := name_mem_of_mem_typeDeclarations hmentioned hu
    obtain ⟨t, ht⟩ := (OrderedMap.mem_keys_iff _ _).1 ((d.mem_keys_types _).2 hdefined)
    have hdeclared : u ∈ t.declarations := (mem_declarations_iff ht u).2 ⟨hu, rfl⟩
    rcases hedge with ⟨rfl, hrefers, hscalar⟩ | ⟨rfl, hobject, hi⟩
    · exact .refers ht hdeclared hrefers hscalar
    · exact .implementedBy ht hdeclared hobject hi
  · intro hlead
    cases hlead with
    | refers ht hu hrefers hscalar =>
      obtain ⟨hu, hname⟩ := (mem_declarations_iff ht _).1 hu
      exact ⟨_, hu, Or.inl ⟨hname, hrefers, hscalar⟩⟩
    | implementedBy ht hu hobject hi =>
      obtain ⟨hu, hname⟩ := (mem_declarations_iff ht _).1 hu
      exact ⟨_, hu, Or.inr ⟨hname, hobject, hi⟩⟩

/-- Where all mentioned types are there, steps lead to defined types. -/
theorem LeadsTo.target_defined
    (hmentioned : ∀ x ∈ d.mentions ignore, danglingError? d.definedTypes x = none)
    {source target : Name} (h : d.LeadsTo ignore source target) :
    target ∈ d.definedTypes.keys := by
  cases h with
  | @refers t u ht hu hrefers hscalar =>
    obtain ⟨hu, -⟩ := (mem_declarations_iff ht u).1 hu
    obtain ⟨relation, referrer, hx⟩ := hrefers.exists_mention u.name
    -- A mentioned type that is no built-in scalar has to be defined.
    have hnone := hmentioned _ (mem_mentions_of_mem_bodyMentions hu hx)
    rw [← OrderedMap.contains_iff]
    simpa [danglingError?, hscalar] using hnone
  | implementedBy ht hu hobject hi =>
    rw [← mem_keys_types]
    exact (OrderedMap.mem_keys_iff _ _).2 ⟨_, ht⟩

/-! ## Reaching and deriving -/

/-- Derivable types are defined. -/
theorem Derivable.defined {start : Name → Prop} {n : Name} (h : d.Derivable ignore start n) :
    n ∈ d.definedTypes.keys := by
  cases h with
  | start _ ht _ => exact (OrderedMap.mem_keys_iff _ _).2 ⟨_, ht⟩
  | step _ _ ht _ => exact (OrderedMap.mem_keys_iff _ _).2 ⟨_, ht⟩

/-- Only the starts that are defined count. -/
theorem Derivable.mono {a b : Name → Prop} (h : ∀ n ∈ d.definedTypes.keys, a n → b n) {n : Name}
    (hn : d.Derivable ignore a n) : d.Derivable ignore b n := by
  induction hn with
  | start hstart ht hopen =>
    exact .start (h _ ((OrderedMap.mem_keys_iff _ _).2 ⟨_, ht⟩) hstart) ht hopen
  | step _ hlead ht hopen ih => exact .step ih hlead ht hopen

/-- Derivable types have definitions that are not ignored. -/
theorem Derivable.definition {start : Name → Prop} {n : Name} (h : d.Derivable ignore start n) :
    ∃ t, d.definedTypes.get? n = some t ∧ isIgnored ignore t.directives = false := by
  cases h with
  | start _ ht hopen => exact ⟨_, ht, hopen⟩
  | step _ _ ht hopen => exact ⟨_, ht, hopen⟩

/-- What is derivable in one document is derivable in another one that has its steps and does not
    ignore what is derivable. -/
theorem Derivable.transfer {e : Document} {start : Name → Prop}
    (hlead : ∀ source target, d.LeadsTo ignore source target → e.LeadsTo ignore source target)
    (hdefinition : ∀ n, d.Derivable ignore start n →
      ∃ t, e.definedTypes.get? n = some t ∧ isIgnored ignore t.directives = false)
    {n : Name} (hn : d.Derivable ignore start n) : e.Derivable ignore start n := by
  induction hn with
  | start hstart ht hopen =>
    obtain ⟨t, ht, hopen⟩ := hdefinition _ (.start hstart ht hopen)
    exact .start hstart ht hopen
  | step hs hstep ht hopen ih =>
    obtain ⟨t, ht, hopen⟩ := hdefinition _ (.step hs hstep ht hopen)
    exact .step ih (hlead _ _ hstep) ht hopen

/-- A defined type is open in the graph unless its definition is ignored. -/
theorem isOpen_graphOf_of_defined {n : Name} (h : n ∈ d.definedTypes.keys) :
    (d.graphOf ignore).isOpen n = true ↔
      ∃ t, d.definedTypes.get? n = some t ∧ isIgnored ignore t.directives = false := by
  obtain ⟨t, ht⟩ := (OrderedMap.mem_keys_iff _ _).1 h
  rw [isOpen_graphOf, ht]
  simp

/-- Where all mentioned types are there, the graph reaches from defined types what is derivable from
    them: edges are steps, and whatever an edge leads to is defined. -/
theorem reaches_iff_derivable
    (hmentioned : ∀ x ∈ d.mentions ignore, danglingError? d.definedTypes x = none)
    {starts : List Name} (hstarts : ∀ n ∈ starts, n ∈ d.definedTypes.keys) (n : Name) :
    (d.graphOf ignore).Reaches starts n ↔ d.Derivable ignore (· ∈ starts) n := by
  constructor
  · intro h
    induction h with
    | start hn hopen =>
      obtain ⟨t, ht, hopen⟩ := (isOpen_graphOf_of_defined (hstarts _ hn)).1 hopen
      exact .start hn ht hopen
    | step _ hsucc hopen ih =>
      have hlead := (mem_successors_iff_leadsTo hmentioned _ _).1 hsucc
      obtain ⟨t, ht, hopen⟩ :=
        (isOpen_graphOf_of_defined (hlead.target_defined hmentioned)).1 hopen
      exact .step ih hlead ht hopen
  · intro h
    induction h with
    | start hn ht hopen =>
      exact .start hn ((isOpen_graphOf_of_defined (hstarts _ hn)).2 ⟨_, ht, hopen⟩)
    | step _ hlead ht hopen ih =>
      exact .step ih ((mem_successors_iff_leadsTo hmentioned _ _).2 hlead)
        ((isOpen_graphOf_of_defined (hlead.target_defined hmentioned)).2 ⟨_, ht, hopen⟩)

/-- Where every reference and every root is to a type that is there, the roots reach what is
    derivable from them. -/
theorem Resolves.mem_reachable_iff (h : d.Resolves ignore) (n : Name) :
    n ∈ (d.graphOf ignore).reachable (d.roots.map Prod.snd) ↔
      d.Derivable ignore (· ∈ d.roots.map Prod.snd) n :=
  (TypeGraph.mem_reachable_iff _ _ n).trans (reaches_iff_derivable h.mentioned h.starts n)

/-- A type is reached exactly if it is derivable from the roots. -/
theorem mem_iff_derivable {reached : NameSet} (h : d.reachable ignore = .ok reached) (n : Name) :
    n ∈ reached ↔ d.Derivable ignore (· ∈ d.roots.map Prod.snd) n := by
  obtain ⟨hresolves, rfl⟩ := (d.reachable_eq_ok_iff ignore reached).1 h
  exact hresolves.mem_reachable_iff n

/-- Where there is an answer to what the roots of a document reach, it is the set of types that are
    derivable from the roots. All of them are defined, and the other defined types, in the order of
    the document, are what the roots do not reach. -/
theorem reachable_iff_derivable (d : Document) (ignore : Option Name) {reached : NameSet}
    (h : d.reachable ignore = .ok reached) :
    (∀ n, n ∈ reached ↔ d.Derivable ignore (· ∈ d.roots.map Prod.snd) n) ∧
    (∀ n ∈ reached, n ∈ d.definedTypes.keys) ∧
    ∃ left : List Name, d.unreachable ignore = .ok left ∧ left.Sublist d.definedTypes.keys ∧
      ∀ n, n ∈ left ↔ n ∈ d.definedTypes.keys ∧ n ∉ reached := by
  obtain ⟨hresolves, -⟩ := (d.reachable_eq_ok_iff ignore reached).1 h
  have hiff : ∀ n, n ∈ reached ↔ d.Derivable ignore (· ∈ d.roots.map Prod.snd) n := fun n =>
    (d.mem_of_reachable_eq_ok ignore h n).trans
      (reaches_iff_derivable hresolves.mentioned hresolves.starts n)
  have hleft : d.unreachable ignore
      = .ok (d.definedTypes.keys.filter fun n => !decide (n ∈ reached)) := by
    simp only [unreachable, h]
    rfl
  exact ⟨hiff, fun n hn => ((hiff n).1 hn).defined, _, hleft, List.filter_sublist, fun n => by simp⟩

end Document

/-! ## A shop with every kind of reference -/

/-- A shop behind an interface that an extension implements, with parts that refer back to it. Some
    elements are hidden, and one interface names a built-in scalar as an interface. -/
def partsShop : Document := ⟨[
  .type ⟨none, "Query", [], .object []
    [⟨none, "node", [⟨none, "by", .named "Filter", none, []⟩,
      ⟨none, "key", .named "Key", none, [⟨"hidden", []⟩]⟩], .nonNull (.named "Node"), []⟩,
     ⟨none, "secret", [], .named "Secret", [⟨"hidden", []⟩]⟩]⟩,
  .type ⟨none, "Node", [], .interface ["String"] [⟨none, "id", [], .named "ID", []⟩]⟩,
  .typeExtension ⟨none, "Shop", [], .object ["Node"] []⟩,
  .type ⟨none, "Shop", [], .object [] [⟨none, "parts", [], .list (.named "Part"), []⟩]⟩,
  .type ⟨none, "Part", [], .union ["Screw", "Nail"]⟩,
  .type ⟨none, "Screw", [], .object [] [⟨none, "shop", [], .named "Shop", []⟩]⟩,
  .type ⟨none, "Nail", [⟨"hidden", []⟩], .object [] []⟩,
  .type ⟨none, "Filter", [], .inputObject
    [⟨none, "but", .named "Filter", none, []⟩,
     ⟨none, "unit", .named "Unit", none, [⟨"hidden", []⟩]⟩]⟩,
  .type ⟨none, "Unit", [], .scalar⟩,
  .type ⟨none, "Key", [], .scalar⟩,
  .type ⟨none, "Secret", [], .scalar⟩]⟩

/-- A screw is derivable through interface, extension and union, and a unit is not: only a hidden
    input field refers to it. -/
theorem partsShop_reachable : ∃ reached, partsShop.reachable (some "hidden") = .ok reached ∧
    reached.names = ["Filter", "Node", "Part", "Query", "Screw", "Shop"] ∧
    partsShop.Derivable (some "hidden") (· ∈ partsShop.roots.map Prod.snd) "Screw" ∧
    ¬ partsShop.Derivable (some "hidden") (· ∈ partsShop.roots.map Prod.snd) "Unit" ∧
    ∃ left, partsShop.unreachable (some "hidden") = .ok left ∧ "Unit" ∈ left := by
  obtain ⟨reached, hreached, hnames⟩ : ∃ reached,
      partsShop.reachable (some "hidden") = .ok reached ∧
      reached.names = ["Filter", "Node", "Part", "Query", "Screw", "Shop"] :=
    ⟨_, rfl, by decide +kernel⟩
  obtain ⟨hiff, -, left, hleft, -, hmem⟩ :=
    Document.reachable_iff_derivable partsShop (some "hidden") hreached
  have hscrew : "Screw" ∈ reached := by rw [NameSet.mem_def, hnames]; decide
  have hunit : "Unit" ∉ reached := by rw [NameSet.mem_def, hnames]; decide
  exact ⟨reached, hreached, hnames, (hiff _).1 hscrew, fun h => hunit ((hiff _).2 h), left, hleft,
    (hmem _).2 ⟨by decide +kernel, hunit⟩⟩

end SchemaView
