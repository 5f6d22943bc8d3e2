import Mathlib.Data.List.Nodup
import SchemaView.Proofs.ProtectedTypes

/-!
# Scaffolding

The scaffolding of a document is made up of the types that a configuration names and of those that
the definitions of its directives use. All of it is meant to be protected, but of several
definitions of one directive only the last one is looked at. What is protected, every compilation
leaves alone. The rest of the scaffolding is treated as any other type is: there are rules that hide
it.

## Key results

- `isProtected_of_isScaffolding`: where no directive is defined twice, all of it is protected
- `exists_compile_hiding`: a defined type that is not protected is hidden by some rule
- `compile_scaffolding_untouched`: which part of the scaffolding is left alone
-/

namespace SchemaView

open Sdl

namespace Document

/-- The types that the arguments of directives have in any definition, whether or not it is the last
    one of its directive. -/
def UsedByDirectiveDefinition (d : Document) (n : Name) : Prop :=
  ∃ t ∈ d.definitions.filterMap directiveDefinition?, ∃ a ∈ t.arguments, a.type.baseName = n

/-- The types that the configuration names, and the defined types that the definitions of directives
    use, the latter closed under every step of the document. -/
def IsScaffolding (d : Document) (config : Config) (n : Name) : Prop :=
  n ∈ config.protectedTypes ∨ d.Derivable none d.UsedByDirectiveDefinition n

/-- No two definitions are of one directive. -/
def DefinesDirectivesOnce (d : Document) : Prop :=
  ((d.definitions.filterMap directiveDefinition?).map DirectiveDecl.name).Nodup

instance (d : Document) : Decidable d.DefinesDirectivesOnce :=
  inferInstanceAs (Decidable (List.Nodup _))

variable {d : Document} {config : Config} {n : Name} {t : DirectiveDecl}

/-! ## What of the scaffolding is protected -/

/-- A definition of a directive that counts is one of the definitions. -/
theorem mem_of_mem_definedDirectives (h : t ∈ d.definedDirectives.values) :
    t ∈ d.definitions.filterMap directiveDefinition? := by
  obtain ⟨name, hname⟩ := (OrderedMap.mem_values_iff _ _).1 h
  obtain ⟨u, hu, hentry⟩ := List.mem_map.1 (OrderedMap.mem_of_get?_ofList _ _ _ hname)
  cases hentry
  exact hu

/-- Where no directive is defined twice, every definition counts. -/
theorem DefinesDirectivesOnce.mem_definedDirectives (h : d.DefinesDirectivesOnce)
    (ht : t ∈ d.definitions.filterMap directiveDefinition?) : t ∈ d.definedDirectives.values := by
  rw [OrderedMap.mem_values_iff]
  refine ⟨t.name, ?_⟩
  rw [definedDirectives, OrderedMap.get?_ofList_of_functional]
  · exact List.mem_map_of_mem ht
  · intro name u u' hu hu'
    obtain ⟨v, hv, hentry⟩ := List.mem_map.1 hu
    obtain ⟨v', hv', hentry'⟩ := List.mem_map.1 hu'
    cases hentry
    obtain ⟨hname, rfl⟩ := Prod.mk.inj hentry'
    exact (List.inj_on_of_nodup_map h hv' hv hname).symm

/-- Whatever is protected is scaffolding. -/
theorem IsProtected.isScaffolding (h : d.IsProtected config n) : d.IsScaffolding config n := by
  refine Or.imp_right (Derivable.mono fun m _ hm => ?_) h
  obtain ⟨t, ht, harguments⟩ := hm
  exact ⟨t, mem_of_mem_definedDirectives ht, harguments⟩

/-- Where no directive is defined twice, all of the scaffolding is protected. -/
theorem isProtected_of_isScaffolding (h : d.DefinesDirectivesOnce)
    (hn : d.IsScaffolding config n) : d.IsProtected config n := by
  refine Or.imp_right (Derivable.mono fun m _ hm => ?_) hn
  obtain ⟨t, ht, harguments⟩ := hm
  exact ⟨t, h.mem_definedDirectives ht, harguments⟩

end Document

/-! ## Types that are not protected -/

/-- A type with an excluded tag is hidden, whatever else is known of it. -/
theorem Filter.isSome_typeReason?_of_excluded {f : Filter} {name : Name} {t : NamedType}
    {tag : String} (htag : tag ∈ f.tags.of (.type name)) (hexcluded : tag ∈ f.rule.excluded) :
    (f.typeReason? name t).isSome := by
  have hsome := (Rule.isSome_reason?_iff f.rule (f.tags.of (.type name))
    (isMemberless t.definition.body)).2 (Or.inl (NameSet.meets_iff.2 ⟨tag, htag, hexcluded⟩))
  obtain ⟨reason, hreason⟩ := Option.isSome_iff_exists.1 hsome
  simp only [typeReason?, hreason]
  rfl

namespace Document

variable {d : Document} {config : Config} {n : Name}

/-- The arguments for a contract without one type, which alone is tagged. -/
def hidingOnly (config : Config) (n : Name) : CompileOptions where
  rule := .ofChoices none (some ["hidden"]) false
  config := config
  ownership := none
  tags := some (OrderedMap.empty.insert (.type n) (.ofList ["hidden"]))
  contractName := none

/-- A defined type that is not protected is hidden by a rule that excludes a tag of it. -/
theorem exists_compile_hiding {kept : NameSet} (hkept : d.protectedTypes config = .ok kept)
    (hdefined : n ∈ d.definedTypes.keys) (hn : n ∉ kept) :
    ∃ c, d.compile (hidingOnly config n) = .ok (.compiled c) ∧ .type n ∈ c.exclusions.keys := by
  -- The rule is valid, and there is no cascade that could fail.
  have hcascade : (d.tagMarked (hidingOnly config n) kept).cascadeFor (hidingOnly config n) kept
      = .ok ⟨d.tagMarked (hidingOnly config n) kept, [], 0⟩ := rfl
  refine ⟨_, compile_eq_compiled_iff.2 ⟨rfl, kept, _, hkept, hcascade, rfl⟩, ?_⟩
  obtain ⟨t, ht⟩ := (OrderedMap.mem_keys_iff _ _).1 ((mem_keys_types d n).2 hdefined)
  have htag : "hidden" ∈ TagMap.of (OrderedMap.empty.insert (.type n) (.ofList ["hidden"]))
      (.type n) := by
    simp [TagMap.of, OrderedMap.get?_insert, NameSet.mem_ofList]
  have hexcluded : "hidden" ∈ (Rule.ofChoices none (some ["hidden"]) false).excluded := by decide
  have hselected : .type n ∈ (d.selection (hidingOnly config n) kept).keys :=
    Filter.mem_keys_exclusions.2 ⟨n, t, (OrderedMap.get?_eq_some_iff _ _ _).1 ht, hn,
      .type rfl (Filter.isSome_typeReason?_of_excluded htag hexcluded)⟩
  exact (mem_keys_withCascaded _ _ _).2 (Or.inl hselected)

/-! ## What is left alone -/

/-- A type that no compilation of a document with a configuration touches. -/
def IsLeftAlone (d : Document) (config : Config) (n : Name) : Prop :=
  ∀ options c, options.config = config → d.compile options = .ok (.compiled c) → c.LeavesAlone d n

/-- No compilation touches what is protected. -/
theorem IsProtected.isLeftAlone (hprotected : d.IsProtected config n) : d.IsLeftAlone config n := by
  intro options c hconfig h
  exact leavesAlone_of_compile h (hconfig ▸ hprotected)

/-- Of the defined types none but the protected ones are left alone by every compilation. -/
theorem IsLeftAlone.isProtected {kept : NameSet} (hkept : d.protectedTypes config = .ok kept)
    (hdefined : n ∈ d.definedTypes.keys) (halone : d.IsLeftAlone config n) :
    d.IsProtected config n := by
  refine Classical.byContradiction fun hnot => ?_
  rw [← mem_protectedTypes hkept] at hnot
  obtain ⟨c, hc, hmem⟩ := exists_compile_hiding hkept hdefined hnot
  exact (halone (hidingOnly config n) c rfl hc).unreported _ hmem rfl

/-- In every compilation the same types are protected in the source and in the contract, the audit
    of the protected types passes, and the protected types, which are part of the scaffolding, are
    left alone. Of the scaffolding exactly these are left alone by all compilations with the
    configuration, which is all of it where no directive is defined twice. -/
theorem compile_scaffolding_untouched (d : Document) (options : CompileOptions) {c : Compilation}
    (h : d.compile options = .ok (.compiled c)) :
    (∃ kept, d.protectedTypes options.config = .ok kept ∧
      c.document.protectedTypes options.config = .ok kept ∧
      ∀ n, n ∈ kept ↔ d.IsProtected options.config n) ∧
    (∃ report, c.protectedAudit d options.config = .ok report ∧ report.passed = true) ∧
    (∀ n, d.IsProtected options.config n →
      d.IsScaffolding options.config n ∧ c.LeavesAlone d n) ∧
    (∀ n, d.IsScaffolding options.config n →
      (d.IsProtected options.config n ↔ d.IsLeftAlone options.config n)) ∧
    (d.DefinesDirectivesOnce → ∀ n, d.IsScaffolding options.config n → c.LeavesAlone d n) := by
  obtain ⟨kept, hkept, hcompiled, hiff⟩ := exists_protectedTypes_of_compile h
  refine ⟨⟨kept, hkept, hcompiled, hiff⟩, protectedAudit_of_compile h,
    fun n hn => ⟨hn.isScaffolding, leavesAlone_of_compile h hn⟩,
    fun n hn => ⟨IsProtected.isLeftAlone, fun halone => ?_⟩,
    fun honce n hn => leavesAlone_of_compile h (isProtected_of_isScaffolding honce hn)⟩
  -- What the configuration names is protected, defined or not, and the rest is defined.
  rcases hn with hnamed | hused
  · exact Or.inl hnamed
  · exact halone.isProtected hkept hused.defined

end Document

/-! ## A shop whose protected types are all tagged -/

/-- A shop with a directive that takes a scope, which refers to roles, and a kind of audit that only
    a configuration protects. All of these and the ledger are internal. -/
def guardedShop : Document := ⟨[
  .directive ⟨none, "auth", [⟨none, "scope", .named "Scope", none, []⟩], false, ["OBJECT"]⟩,
  .type ⟨none, "Scope", [tagUse "internal"], .inputObject
    [⟨none, "role", .named "Role", none, [tagUse "internal"]⟩]⟩,
  .type ⟨none, "Role", [], .enum [⟨none, "ADMIN", [tagUse "internal"]⟩]⟩,
  .typeExtension ⟨none, "Role", [], .enum [⟨none, "GUEST", [tagUse "internal"]⟩]⟩,
  .type ⟨none, "Audit", [tagUse "internal"], .scalar⟩,
  .type ⟨none, "Query", [], .object [] [⟨none, "shop", [], .named "Shop", []⟩]⟩,
  .type ⟨none, "Shop", [], .object [] [⟨none, "name", [], .named "String", []⟩]⟩,
  .type ⟨none, "Ledger", [tagUse "internal"], .object []
    [⟨none, "sum", [], .named "Int", []⟩]⟩]⟩

/-- The arguments for a contract in which audits are protected. -/
def withAudits : CompileOptions :=
  { withoutInternal with config := Config.plain.protecting ["Audit"] }

/-- The directive is defined once, so all of the scaffolding is left alone: the extension of the
    roles is where it was, and so is the definition of audits. The ledger is hidden. -/
theorem guardedShop_scaffolding : ∃ c, guardedShop.compile withAudits = .ok (.compiled c) ∧
    c.exclusions.keys = [.type "Ledger"] ∧
    ¬ guardedShop.IsProtected withAudits.config "Ledger" ∧
    guardedShop.DefinesDirectivesOnce ∧
    guardedShop.IsScaffolding withAudits.config "Role" ∧
    guardedShop.IsLeftAlone withAudits.config "Role" ∧
    c.document.definitions[3]? = guardedShop.definitions[3]? ∧
    c.document.definitions[4]? = guardedShop.definitions[4]? ∧
    ∃ report, c.protectedAudit guardedShop withAudits.config = .ok report
      ∧ report.passed = true := by
  obtain ⟨⟨kept, hkept, -, hiff⟩, haudit, hprotected, hexact, halone⟩ :=
    Document.compile_scaffolding_untouched guardedShop withAudits rfl
  have hkept' : guardedShop.protectedTypes withAudits.config
      = .ok (.ofList ["Audit", "Role", "Scope"]) := rfl
  rw [hkept'] at hkept
  cases hkept
  have honce : guardedShop.DefinesDirectivesOnce := by decide
  have hrole := (hiff "Role").1 (by decide)
  have haudits := (hiff "Audit").1 (by decide)
  have hscaffolding := (hprotected "Role" hrole).1
  refine ⟨_, rfl, by decide +kernel, ?_, honce, hscaffolding,
    (hexact "Role" hscaffolding).1 hrole,
    ((halone honce "Role" hscaffolding).declared _ _ rfl rfl 3).2 rfl,
    ((halone honce "Audit" (hprotected "Audit" haudits).1).declared _ _ rfl rfl 4).2 rfl, haudit⟩
  rw [← hiff]
  decide

/-! ## A shop whose directive is defined twice -/

/-- A shop with a directive whose first definition takes an internal scope, and whose second one
    takes a number. -/
def rescopedShop : Document := ⟨[
  .directive ⟨none, "auth", [⟨none, "scope", .named "Scope", none, []⟩], false, ["OBJECT"]⟩,
  .directive ⟨none, "auth", [⟨none, "level", .named "Int", none, []⟩], false, ["OBJECT"]⟩,
  .type ⟨none, "Query", [], .object [] [⟨none, "shop", [], .named "String", []⟩]⟩,
  .type ⟨none, "Scope", [tagUse "internal"], .inputObject
    [⟨none, "role", .named "String", none, []⟩]⟩]⟩

/-- The scope is scaffolding, but it is hidden and marked. -/
theorem rescopedShop_hides_scope : ∃ c, rescopedShop.compile withoutInternal = .ok (.compiled c) ∧
    rescopedShop.IsScaffolding withoutInternal.config "Scope" ∧
    c.exclusions.keys = [.type "Scope"] ∧
    (∃ t, c.document.definedTypes.get? "Scope" = some t ∧
      carries withoutInternal.config.marker t.directives = true) ∧
    ¬ c.LeavesAlone rescopedShop "Scope" := by
  have hused : rescopedShop.UsedByDirectiveDefinition "Scope" :=
    ⟨_, List.mem_cons_self, _, List.mem_cons_self, rfl⟩
  refine ⟨_, rfl, Or.inr (.start hused rfl rfl), by decide +kernel, ⟨_, rfl, rfl⟩, ?_⟩
  intro halone
  exact halone.unreported (.type "Scope") (by decide +kernel) rfl

end SchemaView
