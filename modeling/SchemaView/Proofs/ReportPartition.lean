import SchemaView.Proofs.Recompile

/-!
# The two parts of a report

A report lists what the rule hides, in the order and with the reasons of the filter, and behind it
the types that the cascade marked, each as unreachable. The parts have nothing in common: a type
that the rule hides is marked before the cascade looks for unmarked types. So the cascade only adds
to the report, and without it the report is the first part.

## Key results

- `marked_sublist`: what the cascade of a compilation marks keeps the order of the definitions
- `compile_keepingUnreachable`: the same contract without a cascade
- `compile_report_partition`: the parts of a report
-/

namespace SchemaView

open Sdl

/-- The same arguments with a rule that keeps unreachable types. -/
def CompileOptions.keepingUnreachable (options : CompileOptions) : CompileOptions :=
  { options with rule := { options.rule with removeUnreachable := false } }

namespace Document

variable {d : Document} {options : CompileOptions} {kept : NameSet} {result : CascadeResult}

/-! ## The part of the cascade -/

/-- The cascade of a compilation marks defined types in the order of the document. -/
theorem marked_sublist (h : (d.tagMarked options kept).cascadeFor options kept = .ok result) :
    result.marked.Sublist d.definedTypes.keys := by
  have hcascade := cascadeFor_eq_ok_iff.1 h
  cases hcascade with
  | inl hremoves =>
    obtain ⟨-, reached, -, rfl⟩ := hremoves
    -- Marks of the rule change no key.
    have hpending := pendingTypes_sublist (d.tagMarked options kept) options.config.marker
      (reached.union kept)
    rw [tagMarked, markAt, keys_definedTypes_mark] at hpending
    rw [afterPass_marked]
    exact hpending
  | inr hkeeps =>
    obtain ⟨-, rfl⟩ := hkeeps
    exact List.nil_sublist _

/-- Where the rule keeps unreachable types, the cascade marks none. -/
theorem marked_of_keeps (h : d.cascadeFor options kept = .ok result)
    (hkeeps : options.rule.removeUnreachable = false) : result.marked = [] := by
  have hrun : d.cascadeFor options kept = .ok ⟨d, [], 0⟩ :=
    cascadeFor_eq_ok_iff.2 (Or.inr ⟨hkeeps, rfl⟩)
  rw [hrun] at h
  cases h
  rfl

/-! ## The part of the rule -/

/-- Whether unreachable types are kept makes no difference to what the rule hides. -/
theorem selection_keepingUnreachable :
    d.selection options.keepingUnreachable kept = d.selection options kept := rfl

/-- With the same arguments and unreachable types kept, a contract is compiled as well, and its
    report is what the rule hides. -/
theorem compile_keepingUnreachable (hrule : options.rule.check = [])
    (hkept : d.protectedTypes options.config = .ok kept) :
    ∃ c, d.compile options.keepingUnreachable = .ok (.compiled c) ∧
      c.exclusions = d.selection options kept ∧ c.cascaded = [] := by
  have hrun : (d.tagMarked options.keepingUnreachable kept).cascadeFor
      options.keepingUnreachable kept
        = .ok ⟨d.tagMarked options.keepingUnreachable kept, [], 0⟩ :=
    cascadeFor_eq_ok_iff.2 (Or.inr ⟨rfl, rfl⟩)
  have hcompile : d.compile options.keepingUnreachable
      = .ok (.compiled (d.assembled options.keepingUnreachable kept
          ⟨d.tagMarked options.keepingUnreachable kept, [], 0⟩)) :=
    compile_eq_compiled_iff.2 ⟨hrule, kept, _, hkept, hrun, rfl⟩
  exact ⟨_, hcompile, selection_keepingUnreachable, rfl⟩

/-! ## The whole report -/

/-- The report of a contract is what the rule hides, for reasons of its own, followed by the types
    that the cascade marked, as unreachable. No type is in both parts, the second part has each type
    once and in the order of the definitions, and it is empty if the rule keeps unreachable types.
    Compiled by the same rule with unreachable types kept, the contract has the first part as its
    report. -/
theorem compile_report_partition (d : Document) (options : CompileOptions) {c : Compilation}
    (h : d.compile options = .ok (.compiled c)) :
    ∃ kept, d.protectedTypes options.config = .ok kept ∧
      c.exclusions.entries = (d.selection options kept).entries
        ++ c.cascaded.map (fun n => (Coordinate.type n, Reason.unreachable)) ∧
      (∀ entry ∈ (d.selection options kept).entries, entry.2 ≠ .unreachable) ∧
      (∀ n ∈ c.cascaded, Coordinate.type n ∉ (d.selection options kept).keys) ∧
      c.cascaded.Nodup ∧
      c.cascaded.Sublist d.definedTypes.keys ∧
      (options.rule.removeUnreachable = false → c.cascaded = []) ∧
      ∃ c', d.compile options.keepingUnreachable = .ok (.compiled c') ∧
        c'.exclusions = d.selection options kept ∧ c'.cascaded = [] := by
  obtain ⟨hrule, kept, result, hkept, hrun, rfl⟩ := compile_eq_compiled_iff.1 h
  obtain ⟨hnodup, hfresh⟩ := cascaded_fresh hrun
  have hentries := entries_withCascaded (d.selection options kept) result.marked hnodup hfresh
  have hreasons : ∀ entry ∈ (d.selection options kept).entries, entry.2 ≠ .unreachable :=
    fun _ hentry => Filter.reason_ne_unreachable hentry
  have hwithout := compile_keepingUnreachable hrule hkept
  exact ⟨kept, hkept, hentries, hreasons, hfresh, hnodup, marked_sublist hrun,
    marked_of_keeps hrun, hwithout⟩

end Document

/-! ## A shop with types hidden in both ways -/

/-- A shop whose internal ledger, defined twice and extended, is the only way to its entries. The
    archive is marked in the source and leads to a shelf. -/
def shelvedShop : Document := ⟨[
  .type ⟨none, "Shelf", [], .scalar⟩,
  .type ⟨none, "Ledger", [], .object [] [⟨none, "sum", [], .named "Int", []⟩]⟩,
  .type ⟨none, "Query", [], .object []
    [⟨none, "shop", [], .named "Shop", []⟩, ⟨none, "archive", [], .named "Archive", []⟩]⟩,
  .type ⟨none, "Shop", [], .object [] [⟨none, "ledger", [], .named "Ledger", []⟩]⟩,
  .type ⟨none, "Ledger", [tagUse "internal"], .object []
    [⟨none, "entry", [], .named "Entry", []⟩]⟩,
  .typeExtension ⟨none, "Ledger", [], .object []
    [⟨none, "audit", [], .named "String", [tagUse "internal"]⟩]⟩,
  .type ⟨none, "Entry", [], .object [] [⟨none, "ledger", [], .named "Ledger", []⟩]⟩,
  .type ⟨none, "Archive", [⟨defaultMarker, []⟩], .object []
    [⟨none, "shelf", [], .named "Shelf", []⟩]⟩]⟩

/-- The rule hides the ledger and its audit, the cascade adds the shelf and the entries, and without
    a cascade nothing else is in the report. -/
theorem shelvedShop_parts : ∃ c c',
    shelvedShop.compile withoutInternal = .ok (.compiled c) ∧
    c.exclusions.entries =
      [(.member "Ledger" "audit", .excludedTag), (.type "Ledger", .excludedTag),
       (.type "Shelf", .unreachable), (.type "Entry", .unreachable)] ∧
    c.cascaded = ["Shelf", "Entry"] ∧
    shelvedShop.compile withoutInternal.keepingUnreachable = .ok (.compiled c') ∧
    c'.exclusions.entries =
      [(.member "Ledger" "audit", .excludedTag), (.type "Ledger", .excludedTag)] := by
  obtain ⟨c, hc, hentries, hcascaded⟩ :
      ∃ c, shelvedShop.compile withoutInternal = .ok (.compiled c) ∧
        c.exclusions.entries =
          [(.member "Ledger" "audit", .excludedTag), (.type "Ledger", .excludedTag),
           (.type "Shelf", .unreachable), (.type "Entry", .unreachable)] ∧
        c.cascaded = ["Shelf", "Entry"] := ⟨_, rfl, by decide +kernel, by decide +kernel⟩
  obtain ⟨kept, -, hparts, -, -, -, -, -, c', hc', hexclusions, -⟩ :=
    Document.compile_report_partition shelvedShop withoutInternal hc
  refine ⟨c, c', hc, hentries, hcascaded, hc', ?_⟩
  -- The last two entries are those of the cascade: what is before them is the part of the rule.
  have hends : c.exclusions.entries
      = [(.member "Ledger" "audit", .excludedTag), (.type "Ledger", .excludedTag)]
        ++ c.cascaded.map (fun n => (Coordinate.type n, Reason.unreachable)) := by
    rw [hentries, hcascaded]
    rfl
  rw [hexclusions]
  exact List.append_cancel_right (hparts.symm.trans hends)

end SchemaView
