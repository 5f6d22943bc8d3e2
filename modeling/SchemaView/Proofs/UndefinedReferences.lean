import SchemaView.Proofs.CompileFailures

/-!
# Documents that refer to types that are not defined

Whether all types are there to which a document refers is found out where its graph is built, and
there only. A compilation builds the graph of the source if an argument of a directive has a defined
type, and that of the marked document if the rule removes unreachable types; the second graph has no
references from marked elements. So a document that refers to a type that is not defined is
rejected if one of the two graphs is built and has such a reference, and compiled otherwise.

## Key results

- `mentioned_iff`: when a graph can be built, by the declarations of the document
- `exists_compiled_iff`: when a contract is compiled, by the references of the document
- `compile_of_refersToUndefined`: which documents with undefined references are rejected
-/

namespace SchemaView

open Sdl

namespace Document

/-! ## What can be missing -/

/-- A definition that counts or an extension refers, past ignored elements, to a type that is neither
    defined nor a built-in scalar. -/
def RefersToUndefined (d : Document) (ignore : Option Name) : Prop :=
  ∃ u ∈ d.typeDeclarations, ∃ target, RefersTo ignore u.body target ∧ isBuiltIn target = false ∧
    target ∉ d.definedTypes.keys

/-- An extension extends a type that is not defined. -/
def ExtendsUndefined (d : Document) : Prop := ∃ u ∈ d.extensions, u.name ∉ d.definedTypes.keys

/-- A root of an operation is not defined. -/
def HasUndefinedRoot (d : Document) : Prop := ∃ root ∈ d.roots, root.2 ∉ d.definedTypes.keys

variable {d : Document} {ignore : Option Name}

/-- The body of a declaration mentions a type where it refers to it, or where the declared object may
    stand for an interface. -/
private theorem mention_of_mem_bodyMentions {type : Name} {b : TypeBody} {x : Mention}
    (h : x ∈ bodyMentions ignore type b) :
    (∃ target relation referrer, x = .refers type target relation referrer ∧
      RefersTo ignore b target) ∨ ∃ i, x = .standsFor i type := by
  rcases mem_bodyMentions.1 h with ⟨f, hf, hx⟩ | ⟨v, hv, hx⟩ | ⟨m, hm, rfl⟩ | ⟨i, hi, rfl | hx⟩
  · obtain ⟨hopen, rfl | ⟨a, ha, hopen', rfl⟩⟩ := mem_fieldMentions.1 hx
    · exact Or.inl ⟨_, _, _, rfl, .field hf hopen⟩
    · exact Or.inl ⟨_, _, _, rfl, .argument hf hopen ha hopen'⟩
  · obtain ⟨hopen, rfl⟩ := mem_inputFieldMentions.1 hx
    exact Or.inl ⟨_, _, _, rfl, .inputField hv hopen⟩
  · exact Or.inl ⟨_, _, _, rfl, .unionMember hm⟩
  · exact Or.inl ⟨_, _, _, rfl, .interface hi⟩
  · exact Or.inr ⟨i, hx.2⟩

theorem danglingError?_refers_eq_none_iff {source target : Name} {relation : Relation}
    {referrer : Referrer} :
    danglingError? d.definedTypes (.refers source target relation referrer) = none ↔
      (isBuiltIn target = false → target ∈ d.definedTypes.keys) := by
  rw [danglingError?, ← OrderedMap.contains_iff]
  cases isBuiltIn target <;> cases d.definedTypes.contains target <;> simp

theorem danglingError?_extends_eq_none_iff {type : Name} :
    danglingError? d.definedTypes (.extends type) = none ↔ type ∈ d.definedTypes.keys := by
  rw [danglingError?, ← OrderedMap.contains_iff]
  cases d.definedTypes.contains type <;> simp

/-- Every mentioned type is there if no declaration refers to an undefined type and no extension
    extends one. -/
theorem mentioned_iff : (∀ x ∈ d.mentions ignore, danglingError? d.definedTypes x = none) ↔
    ¬ d.RefersToUndefined ignore ∧ ¬ d.ExtendsUndefined := by
  constructor
  · intro h
    constructor
    · rintro ⟨u, hu, target, hrefers, hscalar, hnot⟩
      obtain ⟨relation, referrer, hx⟩ := hrefers.exists_mention u.name
      exact hnot (danglingError?_refers_eq_none_iff.1
        (h _ (mem_mentions_of_mem_bodyMentions hu hx)) hscalar)
    · rintro ⟨u, hu, hnot⟩
      exact hnot (name_mem_of_mem_typeDeclarations h (List.mem_append_right _ hu))
  · rintro ⟨hrefers, hextends⟩ x hx
    -- What a declaration mentions in its body, wherever the declaration stands.
    have hbody : ∀ u ∈ d.typeDeclarations, x ∈ bodyMentions ignore u.name u.body →
        danglingError? d.definedTypes x = none := by
      intro u hu hx
      rcases mention_of_mem_bodyMentions hx with ⟨target, _, _, rfl, htarget⟩ | ⟨i, rfl⟩
      · refine danglingError?_refers_eq_none_iff.2 fun hscalar => ?_
        exact Classical.byContradiction fun hnot => hrefers ⟨u, hu, target, htarget, hscalar, hnot⟩
      · rfl
    rcases List.mem_append.1 hx with hx | hx
    · obtain ⟨u, hu, hx⟩ := List.mem_flatMap.1 hx
      exact hbody u (List.mem_append_left _ hu) hx
    · obtain ⟨u, hu, hx⟩ := List.mem_flatMap.1 hx
      rcases List.mem_cons.1 hx with rfl | hx
      · refine danglingError?_extends_eq_none_iff.2 (Classical.byContradiction fun hnot => ?_)
        exact hextends ⟨u, hu, hnot⟩
      · exact hbody u (List.mem_append_right _ hu) hx

theorem resolves_iff : d.Resolves ignore ↔
    ¬ d.RefersToUndefined ignore ∧ ¬ d.ExtendsUndefined ∧ ¬ d.HasUndefinedRoot := by
  have hroots : (∀ root ∈ d.roots, root.2 ∈ d.definedTypes.keys) ↔ ¬ d.HasUndefinedRoot := by
    simp [HasUndefinedRoot]
  rw [← and_assoc, ← mentioned_iff, ← hroots]
  exact ⟨fun h => ⟨h.mentioned, h.roots⟩, fun h => ⟨h.1, h.2⟩⟩

/-! ## When a contract is compiled -/

variable {options : CompileOptions}

/-- The protected types can be found out if no argument of a directive has a defined type, or if no
    declaration refers to an undefined type and no extension extends one. -/
theorem exists_protectedTypes_iff {config : Config} :
    (∃ kept, d.protectedTypes config = .ok kept) ↔ d.directiveArgumentTypes = [] ∨
      (¬ d.RefersToUndefined none ∧ ¬ d.ExtendsUndefined) := by
  have hconfig : (∃ kept, d.protectedTypes config = .ok kept) ↔
      ∃ types, d.directiveTypes = .ok types := by
    simp only [protectedTypes, bind_eq_ok_iff, pure_eq_ok_iff]
    constructor
    · rintro ⟨_, types, htypes, -⟩
      exact ⟨types, htypes⟩
    · rintro ⟨types, htypes⟩
      exact ⟨_, types, htypes, rfl⟩
  rw [hconfig, ← mentioned_iff]
  simp only [directiveTypes_eq_ok_iff]
  constructor
  · rintro ⟨_, ⟨hnone, -⟩ | ⟨-, hmentioned, -⟩⟩
    · exact Or.inl hnone
    · exact Or.inr hmentioned
  · intro h
    by_cases hnone : d.directiveArgumentTypes = []
    · exact ⟨_, Or.inl ⟨hnone, rfl⟩⟩
    · exact ⟨_, Or.inr ⟨hnone, h.resolve_left hnone, rfl⟩⟩

/-- The cascade of a compilation answers if the rule keeps what is unreachable or all references that
    are not ignored are to types that are there. -/
theorem exists_cascadeFor_iff {keep : NameSet} :
    (∃ result, d.cascadeFor options keep = .ok result) ↔
      (options.rule.removeUnreachable = true → d.Resolves (some options.config.marker)) := by
  simp only [cascadeFor_eq_ok_iff, reachable_eq_ok_iff]
  cases options.rule.removeUnreachable with
  | false => simp
  | true =>
    simp only [true_and, reduceCtorEq, false_and, or_false, forall_const]
    constructor
    · rintro ⟨_, _, h, -⟩
      exact h.1
    · intro h
      exact ⟨_, _, ⟨h, rfl⟩, rfl⟩

/-- Marking keeps what is extended and what is defined. -/
theorem extendsUndefined_mark {marker : Name} {hit : Coordinate → Bool} :
    (d.mark marker hit).ExtendsUndefined ↔ d.ExtendsUndefined := by
  rw [ExtendsUndefined, extensions_mark, keys_definedTypes_mark]
  constructor
  · rintro ⟨_, hmarked, hnot⟩
    obtain ⟨u, hu, rfl⟩ := List.mem_map.1 hmarked
    exact ⟨u, hu, hnot⟩
  · rintro ⟨u, hu, hnot⟩
    exact ⟨_, List.mem_map_of_mem hu, hnot⟩

theorem hasUndefinedRoot_mark {marker : Name} {hit : Coordinate → Bool} :
    (d.mark marker hit).HasUndefinedRoot ↔ d.HasUndefinedRoot := by
  simp only [HasUndefinedRoot, roots_mark, keys_definedTypes_mark]

/-- A contract with a valid rule is compiled if the protected types can be found out and, unless the
    rule keeps what is unreachable, the marked document has no unmarked reference to an undefined
    type, extends no such type and has none as a root. -/
theorem exists_compiled_iff (hrule : options.rule.check = []) :
    (∃ c, d.compile options = .ok (.compiled c)) ↔
      ∃ kept, d.protectedTypes options.config = .ok kept ∧
        (options.rule.removeUnreachable = true →
          ¬ (d.tagMarked options kept).RefersToUndefined (some options.config.marker) ∧
          ¬ d.ExtendsUndefined ∧ ¬ d.HasUndefinedRoot) := by
  have hrun : ∀ kept, (∃ result, (d.tagMarked options kept).cascadeFor options kept = .ok result) ↔
      (options.rule.removeUnreachable = true →
        ¬ (d.tagMarked options kept).RefersToUndefined (some options.config.marker) ∧
        ¬ d.ExtendsUndefined ∧ ¬ d.HasUndefinedRoot) := by
    intro kept
    rw [exists_cascadeFor_iff, resolves_iff, tagMarked, markAt, extendsUndefined_mark,
      hasUndefinedRoot_mark]
  constructor
  · rintro ⟨c, hc⟩
    obtain ⟨-, kept, result, hkept, hresult, -⟩ := compile_eq_compiled_iff.1 hc
    exact ⟨kept, hkept, (hrun kept).1 ⟨result, hresult⟩⟩
  · rintro ⟨kept, hkept, hreferences⟩
    obtain ⟨result, hresult⟩ := (hrun kept).2 hreferences
    exact ⟨_, compile_eq_compiled_iff.2 ⟨hrule, kept, result, hkept, hresult, rfl⟩⟩

/-- A contract with a valid rule is compiled, or else the answer names a type that the document
    misses. -/
theorem exists_unknownType_iff (hrule : options.rule.check = []) :
    (∃ name referrer, d.compile options = .error (.unknownType name referrer) ∧
      d.Misses name referrer) ↔ ¬ ∃ c, d.compile options = .ok (.compiled c) := by
  constructor
  · rintro ⟨name, referrer, herror, -⟩ ⟨c, hc⟩
    rw [herror] at hc
    cases hc
  · intro hnot
    cases hrun : d.compile options with
    | error e =>
      obtain ⟨name, referrer, rfl, hmisses⟩ := d.failsOnlyOnUnknown_compile options e hrun
      exact ⟨name, referrer, rfl, hmisses⟩
    | ok result =>
      rw [compile, hrule] at hrun
      obtain ⟨c, hc, hresult⟩ := bind_eq_ok_iff.1 hrun
      refine absurd ⟨c, ?_⟩ hnot
      rw [compile, hrule, hc]
      rfl

/-- With no defined type in an argument of a directive, what is protected is what the configuration
    names. -/
theorem protectedTypes_of_directiveArgumentTypes_eq_nil {config : Config}
    (h : d.directiveArgumentTypes = []) :
    d.protectedTypes config = .ok config.protectedTypes := by
  have hunion : config.protectedTypes.union .empty = config.protectedTypes :=
    NameSet.ext fun x => by simp
  rw [protectedTypes, directiveTypes_eq_ok_iff.2 (Or.inl ⟨h, rfl⟩)]
  exact congrArg Except.ok hunion

theorem directiveArgumentTypes_ne_nil_iff :
    d.directiveArgumentTypes ≠ [] ↔ ∃ n ∈ d.definedTypes.keys, d.UsedByDirective n := by
  constructor
  · intro h
    obtain ⟨n, hn⟩ := List.exists_mem_of_ne_nil _ h
    exact ⟨n, (mem_directiveArgumentTypes.1 hn).2, (mem_directiveArgumentTypes.1 hn).1⟩
  · rintro ⟨n, hdefined, hused⟩
    exact List.ne_nil_of_mem (mem_directiveArgumentTypes.2 ⟨hused, hdefined⟩)

/-- With a valid rule, a document that refers to an undefined type is rejected for a type that it
    misses exactly if an argument of a directive has a defined type, or the rule removes unreachable
    types and, with the elements marked that the rule hides, an unmarked reference is to an undefined
    type, or such a type is extended or a root. All other such documents are compiled. -/
theorem compile_of_refersToUndefined (d : Document) (options : CompileOptions)
    (hrule : options.rule.check = []) (hundefined : d.RefersToUndefined none) :
    ((∃ name referrer, d.compile options = .error (.unknownType name referrer) ∧
        d.Misses name referrer) ↔
      (∃ n ∈ d.definedTypes.keys, d.UsedByDirective n) ∨
      (options.rule.removeUnreachable = true ∧
        ((d.tagMarked options options.config.protectedTypes).RefersToUndefined
            (some options.config.marker) ∨ d.ExtendsUndefined ∨ d.HasUndefinedRoot))) ∧
    ((∃ name referrer, d.compile options = .error (.unknownType name referrer) ∧
        d.Misses name referrer) ∨
      ∃ c, d.compile options = .ok (.compiled c)) := by
  have hcompiled : (∃ c, d.compile options = .ok (.compiled c)) ↔
      d.directiveArgumentTypes = [] ∧ (options.rule.removeUnreachable = true →
        ¬ (d.tagMarked options options.config.protectedTypes).RefersToUndefined
          (some options.config.marker) ∧ ¬ d.ExtendsUndefined ∧ ¬ d.HasUndefinedRoot) := by
    rw [exists_compiled_iff hrule]
    constructor
    · rintro ⟨kept, hkept, hreferences⟩
      -- A graph of the source would have the reference that is undefined.
      have hnone := (exists_protectedTypes_iff.1 ⟨kept, hkept⟩).resolve_right
        fun h => h.1 hundefined
      rw [protectedTypes_of_directiveArgumentTypes_eq_nil hnone] at hkept
      cases hkept
      exact ⟨hnone, hreferences⟩
    · rintro ⟨hnone, hreferences⟩
      exact ⟨_, protectedTypes_of_directiveArgumentTypes_eq_nil hnone, hreferences⟩
  rw [exists_unknownType_iff hrule, ← directiveArgumentTypes_ne_nil_iff]
  refine ⟨?_, (Classical.em _).symm⟩
  rw [hcompiled]
  grind

end Document

/-! ## A shop with a type that is not there -/

/-- A shop that is listed nowhere in its document. -/
def danglingShop : Document := ⟨[
  .type ⟨none, "Query", [], .object [] [⟨none, "shop", [], .named "Shop", []⟩]⟩]⟩

theorem danglingShop_refersToUndefined (ignore : Option Name) :
    danglingShop.RefersToUndefined ignore := by
  refine ⟨_, List.mem_cons_self, "Shop", ?_, rfl, by decide⟩
  have hopen : isIgnored ignore [] = false := by cases ignore <;> rfl
  exact RefersTo.field (f := ⟨none, "shop", [], .named "Shop", []⟩) List.mem_cons_self hopen

/-- The arguments for a contract without what is internal but with what is not reached. -/
def withoutInternalOnly : CompileOptions :=
  { withoutInternal with rule := .ofChoices none (some ["internal"]) false }

/-- Without what is not reached, the shop is looked for, and it is the reason for the rejection. -/
theorem danglingShop_rejected : withoutInternal.rule.check = [] ∧
    danglingShop.RefersToUndefined none ∧
    ∃ name referrer, danglingShop.compile withoutInternal = .error (.unknownType name referrer) ∧
      danglingShop.Misses name referrer := by
  -- Nothing is internal, so what the rule leaves is the source.
  have hsame : danglingShop.tagMarked withoutInternal withoutInternal.config.protectedTypes
      = danglingShop := rfl
  refine ⟨rfl, danglingShop_refersToUndefined _, ?_⟩
  refine (Document.compile_of_refersToUndefined danglingShop withoutInternal rfl
    (danglingShop_refersToUndefined _)).1.2 (Or.inr ⟨rfl, Or.inl ?_⟩)
  rw [hsame]
  exact danglingShop_refersToUndefined _

/-- With what is not reached, no graph is built and nobody misses the shop. -/
theorem danglingShop_compiled : withoutInternalOnly.rule.check = [] ∧
    danglingShop.RefersToUndefined none ∧
    ∃ c, danglingShop.compile withoutInternalOnly = .ok (.compiled c) :=
  ⟨rfl, danglingShop_refersToUndefined _, _, rfl⟩

end SchemaView
