import SchemaView.Audit
import SchemaView.Proofs.CompileCorrect

/-!
# The public surface is what is reached

A contract whose rule removes unreachable types is settled: what is reached past the marked elements
is what was reached when only the rule had hidden something, and no pass of the cascade has
anything left to mark. In a settled document a type that is not protected is unmarked exactly if it
is reached, and this is what the audit of the public surface counts.

## Key results

- `unmarked_iff_reached`: the types of a settled document
- `compile_public_surface`: its public types are those that are reached, and the audit passes
-/

namespace SchemaView

open Sdl

/-! ## Settled documents -/

namespace Document

variable {d : Document} {marker : Name} {reached kept : NameSet} {n : Name} {t : TypeDecl}

/-- The definition of a type that is reached past marked elements is not marked. -/
theorem unmarked_of_reached (h : d.reachable (some marker) = .ok reached) (hn : n ∈ reached)
    (ht : d.definedTypes.get? n = some t) : carries marker t.directives = false := by
  have hopen := ((mem_of_reachable_eq_ok d (some marker) h n).1 hn).isOpen
  rw [isOpen_graphOf] at hopen
  rcases hopen with ⟨u, hu, hignored⟩ | ⟨hnone, -⟩
  · rw [ht] at hu
    cases hu
    exact hignored
  · rw [ht] at hnone
    cases hnone

/-- Where nothing is left to mark, a type that is not kept anyway is unmarked exactly if it is
    reached. -/
theorem unmarked_iff_reached (h : d.reachable (some marker) = .ok reached)
    (hsettled : d.pendingTypes marker (reached.union kept) = [])
    (ht : d.definedTypes.get? n = some t) (hn : n ∉ kept) :
    carries marker t.directives = false ↔ n ∈ reached := by
  refine ⟨fun hcarries => ?_, fun hreached => unmarked_of_reached h hreached ht⟩
  apply Classical.byContradiction
  intro hnot
  -- An unmarked type that is neither reached nor kept would be left to mark.
  have hpending : n ∈ d.pendingTypes marker (reached.union kept) := by
    refine mem_pendingTypes.2 ⟨t, ht, ?_, hcarries⟩
    rw [NameSet.mem_union]
    exact fun hv => hv.elim hnot hn
  rw [hsettled] at hpending
  exact List.not_mem_nil hpending

/-- The unmarked types are those that would be left to mark if none were visible. -/
theorem unmarkedTypes_eq_pendingTypes (d : Document) (marker : Name) :
    d.unmarkedTypes marker = d.pendingTypes marker .empty := by
  simp [unmarkedTypes, pendingTypes]

theorem mem_unmarkedTypes : n ∈ d.unmarkedTypes marker ↔
    ∃ t, d.definedTypes.get? n = some t ∧ carries marker t.directives = false := by
  rw [unmarkedTypes_eq_pendingTypes, mem_pendingTypes]
  simp

/-- In a marked document the types are unmarked that were and were not to be marked. -/
theorem mem_unmarkedTypes_mark {hit : Coordinate → Bool} :
    n ∈ (d.mark marker hit).unmarkedTypes marker ↔
      n ∈ d.unmarkedTypes marker ∧ hit (.type n) = false := by
  rw [unmarkedTypes_eq_pendingTypes, unmarkedTypes_eq_pendingTypes, mem_pendingTypes_mark]

end Document

/-! ## The audit -/

namespace Compilation

/-- The audit of the public surface passes where nothing is left to mark. -/
theorem surfaceAudit_of_settled {c : Compilation} {config : Config} {kept reached : NameSet}
    (hkept : c.document.protectedTypes config = .ok kept)
    (hreached : c.document.reachable (some config.marker) = .ok reached)
    (hsettled : c.document.pendingTypes config.marker (reached.union kept) = []) :
    ∃ report, c.surfaceAudit config = .ok report ∧ report.passed = true := by
  have hdangling : ((c.document.unmarkedTypes config.marker).filter fun name =>
      !decide (name ∈ kept)).filter (fun name => !decide (name ∈ reached)) = [] := by
    simp only [List.filter_eq_nil_iff, List.mem_filter, Bool.not_eq_true', decide_eq_false_iff_not]
    rintro name ⟨hname, hnot⟩ hmiss
    obtain ⟨t, ht, hcarries⟩ := Document.mem_unmarkedTypes.1 hname
    exact hmiss ((Document.unmarked_iff_reached hreached hsettled ht hnot).1 hcarries)
  unfold surfaceAudit
  cases c.rule.removeUnreachable with
  | false => exact ⟨_, rfl, rfl⟩
  | true =>
    simp only [hkept, hreached, bind, Except.bind, hdangling]
    exact ⟨_, rfl, rfl⟩

end Compilation

namespace Document

/-- Where a rule removes unreachable types, a type of the contract that is not protected is public
    exactly if it is reached past the marked elements. What is reached is what was reached before
    the cascade, and the audit of the public surface passes. -/
theorem compile_public_surface (d : Document) (options : CompileOptions) {c : Compilation}
    (h : d.compile options = .ok (.compiled c)) (hremove : options.rule.removeUnreachable = true) :
    ∃ kept reached, d.protectedTypes options.config = .ok kept ∧
      c.document.protectedTypes options.config = .ok kept ∧
      (d.tagMarked options kept).reachable (some options.config.marker) = .ok reached ∧
      c.document.reachable (some options.config.marker) = .ok reached ∧
      (∀ type t, c.document.definedTypes.get? type = some t → type ∉ kept →
        (carries options.config.marker t.directives = false ↔ type ∈ reached)) ∧
      ∃ report, c.surfaceAudit options.config = .ok report ∧ report.passed = true := by
  obtain ⟨kept, reached, hkept, hkept', hbefore, hafter, hsettled⟩ := compiled_settled h hremove
  refine ⟨kept, reached, hkept, hkept', hbefore, hafter, ?_, ?_⟩
  · intro type t ht htype
    exact unmarked_iff_reached hafter hsettled ht htype
  · exact Compilation.surfaceAudit_of_settled hkept' hafter hsettled

end Document

/-! ## A shop with a protected type and a cycle -/

/-- A shop with an internal field, declared by an extension, behind which two types refer to each
    other. Nothing refers to the type of roles but a directive. -/
def auditedShop : Document := ⟨[
  .directive ⟨none, "auth", [⟨none, "role", .named "Role", none, []⟩], false, ["OBJECT"]⟩,
  .type ⟨none, "Role", [tagUse "internal"], .enum [⟨none, "ADMIN", []⟩]⟩,
  .type ⟨none, "Query", [], .object [] [⟨none, "shop", [], .named "Shop", []⟩]⟩,
  .type ⟨none, "Shop", [], .object [] [⟨none, "name", [], .named "String", []⟩]⟩,
  .typeExtension ⟨none, "Shop", [], .object []
    [⟨none, "ledger", [], .named "Ledger", [tagUse "internal"]⟩]⟩,
  .type ⟨none, "Ledger", [], .object [] [⟨none, "entry", [], .named "Entry", []⟩]⟩,
  .type ⟨none, "Entry", [], .object [] [⟨none, "ledger", [], .named "Ledger", []⟩]⟩]⟩

/-- The types behind the internal field are marked and not reached, and that of roles is protected,
    neither marked nor reached. -/
theorem auditedShop_public_surface : ∃ c kept reached,
    auditedShop.compile withoutInternal = .ok (.compiled c) ∧
    c.cascaded = ["Ledger", "Entry"] ∧ "Role" ∈ kept ∧
    c.document.protectedTypes .plain = .ok kept ∧
    c.document.reachable (some defaultMarker) = .ok reached ∧
    (∀ type t, c.document.definedTypes.get? type = some t → type ∉ kept →
      (carries defaultMarker t.directives = false ↔ type ∈ reached)) ∧
    ∃ report, c.surfaceAudit .plain = .ok report ∧ report.passed = true := by
  obtain ⟨kept, reached, hsource, hkept, -, hreached, hsurface, haudit⟩ :=
    Document.compile_public_surface auditedShop withoutInternal rfl rfl
  have hrole : auditedShop.protectedTypes .plain = .ok (.ofList ["Role"]) := rfl
  rw [show withoutInternal.config = .plain from rfl, hrole] at hsource
  refine ⟨_, kept, reached, rfl, by decide +kernel, ?_, hkept, hreached, hsurface, haudit⟩
  rw [← Except.ok.inj hsource]
  decide

end SchemaView
