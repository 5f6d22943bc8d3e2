import SchemaView.Proofs.CompileCorrect

/-!
# A stricter rule hides at least as much

Compiles one document by two rules, of which one asks for at least as much as the other. Everything
that the laxer rule hides is hidden by the stricter one, though not always for the same reason: a
type that nothing visible reaches any more may carry a tag that the stricter rule excludes.

## Key results

- `pendingTypes_of_subset`: what the cascade marks where less is marked, more marks hide or leave
  to their own cascade
- `compile_hides_of_stricter`: the reports of the two compilations are nested
-/

namespace SchemaView

open Sdl

namespace Document

variable {d : Document} {marker : Name}

/-- Marking some elements and then all of a larger list is marking those of the larger list. -/
theorem markAt_markAt_of_subset {few many : List Coordinate} (h : ∀ c ∈ few, c ∈ many) :
    (d.markAt marker few).markAt marker many = d.markAt marker many := by
  rw [markAt, markAt, mark_mark, markAt]
  congr 1
  funext c
  rw [Bool.eq_iff_iff]
  simp only [Bool.or_eq_true, decide_eq_true_eq]
  exact ⟨fun hc => hc.elim (h c) id, Or.inr⟩

/-- Where more is marked, a type that was to be marked is now marked by its coordinate or still to
    be marked: no more is reached than before. -/
theorem pendingTypes_of_subset {few many : List Coordinate} (h : ∀ c ∈ few, c ∈ many)
    {reached reached' keep : NameSet}
    (hfew : (d.markAt marker few).reachable (some marker) = .ok reached)
    (hmany : (d.markAt marker many).reachable (some marker) = .ok reached') {n : Name}
    (hn : n ∈ (d.markAt marker few).pendingTypes marker (reached.union keep)) :
    Coordinate.type n ∈ many
      ∨ n ∈ (d.markAt marker many).pendingTypes marker (reached'.union keep) := by
  rw [markAt, mem_pendingTypes_mark] at hn
  obtain ⟨t, ht, hvisible, hcarries⟩ := mem_pendingTypes.1 hn.1
  -- The larger marking is one on top of the smaller, so it reaches no more.
  have hless : ∀ m ∈ reached', m ∈ reached := by
    obtain ⟨after, hafter, hsub⟩ := reachable_mark (fun c => decide (c ∈ many)) hfew
    rw [← markAt, markAt_markAt_of_subset h, hmany] at hafter
    cases hafter
    exact hsub
  -- The type may carry a mark of the larger marking, or else is as bare as before.
  by_cases hmem : Coordinate.type n ∈ many
  · exact Or.inl hmem
  · rw [markAt, mem_pendingTypes_mark]
    refine Or.inr ⟨mem_pendingTypes.2 ⟨t, ht, ?_, hcarries⟩, by simp [hmem]⟩
    rw [NameSet.mem_union] at hvisible ⊢
    exact fun hv => hvisible (hv.imp (hless n) id)

/-- Of two compilations of a document by rules of which one is stricter, the stricter one hides
    everything that the other hides: by tag, because all members are hidden, or because nothing
    visible reaches it. -/
theorem compile_hides_of_stricter (d : Document) (options : CompileOptions) {strict lax : Rule}
    (h : strict.Stricter lax) {c c' : Compilation}
    (hlax : d.compile { options with rule := lax } = .ok (.compiled c))
    (hstrict : d.compile { options with rule := strict } = .ok (.compiled c')) :
    ∀ k ∈ c.exclusions.keys, k ∈ c'.exclusions.keys := by
  obtain ⟨-, keep, run, hkeep, hrun, rfl⟩ := compile_eq_compiled_iff.1 hlax
  obtain ⟨-, keep', run', hkeep', hrun', rfl⟩ := compile_eq_compiled_iff.1 hstrict
  -- Which types are protected does not depend on the rule.
  obtain rfl : keep = keep' := Except.ok.inj (hkeep.symm.trans hkeep')
  have hselected : ∀ k ∈ (d.selection { options with rule := lax } keep).keys,
      k ∈ (d.selection { options with rule := strict } keep).keys :=
    fun k hk => Filter.mem_exclusions_of_stricter h hk
  intro k hk
  simp only [assembled, mem_keys_withCascaded] at hk ⊢
  rcases hk with hk | ⟨n, hn, rfl⟩
  · exact Or.inl (hselected k hk)
  · -- A type that the cascade of the laxer rule marks: then both rules have a cascade.
    rcases cascadeFor_eq_ok_iff.1 hrun with ⟨hremove, reached, hreached, rfl⟩ | ⟨-, rfl⟩
    · rcases cascadeFor_eq_ok_iff.1 hrun' with ⟨-, reached', hreached', rfl⟩ | ⟨hkeeps, -⟩
      · rw [afterPass_marked] at hn
        rw [afterPass_marked]
        exact (pendingTypes_of_subset hselected hreached hreached' hn).imp id fun hn' =>
          ⟨n, hn', rfl⟩
      · have hremove' := h.removes hremove
        simp only at hkeeps
        rw [hkeeps] at hremove'
        cases hremove'
    · exact absurd hn List.not_mem_nil

end Document

/-! ## A type that two rules hide for different reasons -/

/-- A shop whose ledger is in beta and mentioned by one internal field only. -/
def ledgerShop : Document := ⟨[
  .type ⟨none, "Query", [], .object []
    [⟨none, "shop", [], .named "Shop", []⟩,
     ⟨none, "ledger", [], .named "Ledger", [tagUse "internal"]⟩]⟩,
  .type ⟨none, "Shop", [], .object [] [⟨none, "name", [], .named "String", []⟩]⟩,
  .type ⟨none, "Ledger", [tagUse "beta"], .object [] [⟨none, "sum", [], .named "Int", []⟩]⟩]⟩

/-- A rule that hides what is internal and what is in beta. -/
def internalBetaRule : Rule := .ofChoices none (some ["internal", "beta"]) true

/-- Without its internal field the ledger is not reached, and the stricter rule hides it by its own
    tag before there is a cascade. -/
theorem ledgerShop_hidden_for_different_reasons : ∃ c c',
    ledgerShop.compile withoutInternal = .ok (.compiled c) ∧
    ledgerShop.compile { withoutInternal with rule := internalBetaRule } = .ok (.compiled c') ∧
    internalBetaRule.Stricter withoutInternal.rule ∧
    c.exclusions.get? (.type "Ledger") = some .unreachable ∧
    c'.exclusions.get? (.type "Ledger") = some .excludedTag ∧
    ∀ k ∈ c.exclusions.keys, k ∈ c'.exclusions.keys := by
  have hstricter : internalBetaRule.Stricter withoutInternal.rule :=
    ⟨by decide, Or.inl rfl, fun _ => rfl⟩
  refine ⟨_, _, rfl, rfl, hstricter, by decide +kernel, by decide +kernel, ?_⟩
  exact Document.compile_hides_of_stricter ledgerShop withoutInternal hstricter rfl rfl

end SchemaView
