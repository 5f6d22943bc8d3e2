import SchemaView.Proofs.ExtensionFolding
import SchemaView.Proofs.CompileCorrect

/-!
# Markers on extensions

A walk past marked elements does not enter a type whose definition carries the marker. It does not
look at the directives of extensions, although they are directives of the type everywhere else: tags
on an extension are tags of the type, and a type is hidden by marking its definition and its
extensions. With the extensions written into the definitions their markers count, and less is
reached if a type with a marked extension was reached before.

## Key results

- `not_derivable_of_marked_extension`: what is not reached once extensions are in the definitions
- `reachable_folded_eq_iff`: when the two documents reach the same types past a marker
-/

namespace SchemaView

open Sdl

namespace Document

variable {d : Document} {marker : Name}

/-- With extensions written into definitions, a type with a marked extension is not derivable. -/
theorem not_derivable_of_marked_extension {start : Name → Prop} {u : TypeDecl}
    (hu : u ∈ d.extensions) (hmarked : carries marker u.directives = true) :
    ¬ d.folded.Derivable (some marker) start u.name := by
  intro hderivable
  obtain ⟨t, ht, hopen⟩ := definition_folded_iff.1 hderivable.definition
  have hdeclared : u ∈ t.declarations :=
    (mem_declarations_iff ht u).2 ⟨List.mem_append_right _ hu, rfl⟩
  have hunmarked : carries marker u.directives = false := hopen u hdeclared
  rw [hmarked] at hunmarked
  cases hunmarked

/-- Past a marker, the roots of a document reach whatever they reach once the extensions are written
    into the definitions. In that document no type with a marked extension is reached, so the two
    documents reach the same types exactly if the roots of the source reach no such type either. -/
theorem reachable_folded_eq_iff (d : Document) (marker : Name) (hfit : d.ExtensionsFit)
    {reached : NameSet} (h : d.reachable (some marker) = .ok reached) :
    ∃ within, d.folded.reachable (some marker) = .ok within ∧
      (∀ n ∈ within, n ∈ reached) ∧
      (∀ u ∈ d.extensions, carries marker u.directives = true → u.name ∉ within) ∧
      (within = reached ↔
        ∀ u ∈ d.extensions, carries marker u.directives = true → u.name ∉ reached) := by
  obtain ⟨hresolves, -⟩ := (d.reachable_eq_ok_iff (some marker) reached).1 h
  obtain ⟨within, hwithin⟩ : ∃ within, d.folded.reachable (some marker) = .ok within :=
    ⟨_, (d.folded.reachable_eq_ok_iff _ _).2 ⟨(resolves_folded_iff hfit).2 hresolves, rfl⟩⟩
  have hreached := mem_iff_derivable h
  have hfolded := mem_iff_derivable hwithin
  rw [roots_folded] at hfolded
  have hsub : ∀ n ∈ within, n ∈ reached := by
    intro n hn
    exact (hreached n).2 (((hfolded n).1 hn).of_folded hfit)
  have hmarked : ∀ u ∈ d.extensions, carries marker u.directives = true → u.name ∉ within := by
    intro u hu hcarries hn
    exact not_derivable_of_marked_extension hu hcarries ((hfolded u.name).1 hn)
  refine ⟨within, hwithin, hsub, hmarked, ?_⟩
  constructor
  · intro heq
    rw [← heq]
    exact hmarked
  · intro hunreached
    -- Extensions of reached types carry no marker, so each step can be made in both documents.
    have hopen : ∀ u ∈ d.extensions,
        d.Derivable (some marker) (· ∈ d.roots.map Prod.snd) u.name →
          isIgnored (some marker) u.directives = false := by
      intro u hu hderivable
      rw [isIgnored, ← Bool.not_eq_true]
      exact fun hcarries => hunreached u hu hcarries ((hreached u.name).2 hderivable)
    apply NameSet.ext
    intro n
    constructor
    · exact hsub n
    · intro hn
      exact (hfolded n).2 (((hreached n).1 hn).folded hfit hopen)

end Document

/-! ## Shops with a marked extension -/

/-- A shop with a ledger that is marked in an extension and that nothing refers to. -/
def asideLedgerShop : Document := ⟨[
  .type ⟨none, "Query", [], .object [] [⟨none, "shop", [], .named "Shop", []⟩]⟩,
  .type ⟨none, "Shop", [], .object [] [⟨none, "name", [], .named "String", []⟩]⟩,
  .type ⟨none, "Ledger", [], .object [] [⟨none, "shop", [], .named "Shop", []⟩]⟩,
  .typeExtension ⟨none, "Ledger", [⟨defaultMarker, []⟩], .object []
    [⟨none, "entry", [], .named "Entry", []⟩]⟩,
  .type ⟨none, "Entry", [], .object [] [⟨none, "ledger", [], .named "Ledger", []⟩]⟩]⟩

/-- The marker of the ledger makes no difference, because the ledger is not reached anyway. -/
theorem asideLedgerShop_reached : asideLedgerShop.ExtensionsFit ∧
    ∃ reached, asideLedgerShop.reachable (some defaultMarker) = .ok reached ∧
      reached.names = ["Query", "Shop"] ∧
      asideLedgerShop.folded.reachable (some defaultMarker) = .ok reached := by
  have hfit : asideLedgerShop.ExtensionsFit := by decide +kernel
  obtain ⟨reached, hreached, hnames⟩ : ∃ reached,
      asideLedgerShop.reachable (some defaultMarker) = .ok reached ∧
      reached.names = ["Query", "Shop"] := ⟨_, rfl, by decide +kernel⟩
  obtain ⟨within, hwithin, -, -, hiff⟩ :=
    Document.reachable_folded_eq_iff asideLedgerShop defaultMarker hfit hreached
  have hunreached : ∀ u ∈ asideLedgerShop.extensions,
      carries defaultMarker u.directives = true → u.name ∉ reached := by
    simp only [NameSet.mem_def, hnames]
    decide +kernel
  rw [hiff.2 hunreached] at hwithin
  exact ⟨hfit, reached, hreached, hnames, hwithin⟩

/-- A shop that is withdrawn by an extension. -/
def withdrawnShop : Document := ⟨[
  .type ⟨none, "Query", [], .object [] [⟨none, "shop", [], .named "Shop", []⟩]⟩,
  .type ⟨none, "Shop", [], .object [] [⟨none, "name", [], .named "String", []⟩]⟩,
  .typeExtension ⟨none, "Shop", [⟨"inaccessible", []⟩], .object [] []⟩]⟩

/-- The withdrawn shop is reached past the marker, and with its extension written into the
    definition it is not. -/
theorem withdrawnShop_reached : withdrawnShop.DistinctTypes ∧ withdrawnShop.ExtensionsFit ∧
    ∃ reached within, withdrawnShop.reachable (some "inaccessible") = .ok reached ∧
      withdrawnShop.folded.reachable (some "inaccessible") = .ok within ∧
      reached.names = ["Query", "Shop"] ∧ within.names = ["Query"] ∧ within ≠ reached := by
  obtain ⟨reached, hreached, hnames⟩ : ∃ reached,
      withdrawnShop.reachable (some "inaccessible") = .ok reached ∧
      reached.names = ["Query", "Shop"] := ⟨_, rfl, by decide +kernel⟩
  obtain ⟨within, hwithin, hnames'⟩ : ∃ within,
      withdrawnShop.folded.reachable (some "inaccessible") = .ok within ∧
      within.names = ["Query"] := ⟨_, rfl, by decide +kernel⟩
  have hne : within ≠ reached := by
    intro heq
    rw [heq, hnames] at hnames'
    cases hnames'
  exact ⟨by decide +kernel, by decide +kernel, reached, within, hreached, hwithin, hnames, hnames',
    hne⟩

end SchemaView
