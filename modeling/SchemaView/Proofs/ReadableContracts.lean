import SchemaView.Proofs.MarkedTrees
import SchemaView.Proofs.Recompile
import SchemaView.Proofs.Settings

/-!
# Contracts that can be read back

The name of the marker comes from the environment or from a settings file, and nothing says that it
is a name. It is written into the contract wherever an element is hidden. So a contract can be read
back if its source can be, and if the marker has a name or hides nothing.

## Key results

- `compile_readable_iff`: the contracts that can be read back
- `remarkedShop_unreadable`: a marker with an empty name
-/

namespace SchemaView

open Sdl

/-! ## The marker that is set -/

/-- The configuration takes the name of the marker as it is set. -/
theorem Config.marker_ofVariables {settings : Variables} {config : Config}
    (h : Config.ofVariables settings = .ok config) :
    config.marker = (settings.get? Config.markerVariable).getD defaultMarker := by
  unfold Config.ofVariables Config.create at h
  split at h
  · cases h
    rfl
  · cases h

/-! ## Reading contracts back -/

namespace Document

variable {d : Document} {options : CompileOptions} {c : Compilation}

theorem sdl_compiled (h : d.compile options = .ok (.compiled c)) : c.sdl = c.document.render := by
  obtain ⟨-, _, _, -, -, rfl⟩ := compile_eq_compiled_iff.1 h
  rfl

/-- What is compiled can be read back if the source can be, and the marker can be written. -/
theorem parse_compiled_iff (hsome : d.definitions ≠ []) (hwell : ∀ x ∈ d.definitions, x.WellFormed)
    (h : d.compile options = .ok (.compiled c)) :
    Document.parse c.sdl = .ok c.document ↔
      Document.parse d.render = .ok d ∧ (IsNameText options.config.marker ∨ c.document = d) := by
  obtain ⟨_, _, -, hdocument⟩ := exists_mark_of_compile h
  rw [sdl_compiled h, parse_render_iff, parse_render_iff, hdocument, wellFormed_marked_iff hwell,
    legible_marked_iff, and_iff_right (definitions_marked_ne_nil hsome), and_iff_right hsome,
    and_iff_right hwell]
  exact and_comm

/-- A contract that is compiled under the settings of an environment and a settings file can be read
    back exactly if its source is read as it is printed, and if the marker that is set is a name or
    leaves the source as it is. -/
theorem compile_readable_iff {environment settings : Variables} {file : Option String}
    {text : String} (hsettings : environment.withFile file = .ok settings)
    (hconfig : Config.ofVariables settings = .ok options.config)
    (hread : Document.parse text = .ok d) (hcompile : d.compile options = .ok (.compiled c)) :
    Document.parse c.sdl = .ok c.document ↔
      Document.parse d.render = .ok d ∧
        (IsNameText ((environment.lookup file Config.markerVariable).getD defaultMarker) ∨
          c.document = d) := by
  rw [← Variables.get?_withFile hsettings, ← Config.marker_ofVariables hconfig]
  obtain ⟨hsome, hwell⟩ := wellFormed_definitions_of_parse hread
  exact parse_compiled_iff hsome hwell hcompile

end Document

/-! ## A marker without a name -/

/-- The environment that sets the name of the marker. -/
def markerSettings (name : Name) : Variables := OrderedMap.empty.insert Config.markerVariable name

/-- The configuration in that environment. -/
def markerConfig (name : Name) : Config := { Config.default with marker := name }

/-- A rule that hides what is internal, in that environment. -/
def withoutInternalBy (marker : Name) : CompileOptions :=
  { withoutInternal with config := markerConfig marker }

/-- A shop with an internal ledger. -/
def remarkedShop : Document := ⟨[
  .type ⟨none, "Query", [], .object []
    [⟨none, "shop", [], .named "String", []⟩,
     ⟨none, "ledger", [], .named "Int", [tagUse "internal"]⟩]⟩]⟩

/-- The text of that shop. -/
def remarkedShopText : String :=
  "type Query \x7b shop: String ledger: Int @tag(name: \"internal\") \x7d"

/-- The text of its contract if the marker has no name. -/
def unnamedContract : String :=
  "type Query \x7b\n  shop: String\n  ledger: Int @tag(name: \"internal\") @\n\x7d\n\n" ++
    "directive @ on FIELD_DEFINITION | OBJECT | INTERFACE | UNION | ARGUMENT_DEFINITION | SCALAR" ++
    " | ENUM | ENUM_VALUE | INPUT_OBJECT | INPUT_FIELD_DEFINITION"

/-- The contract in which a marker with a name hides the ledger can be read back. -/
theorem remarkedShop_readable :
    (markerSettings "hidden").withFile none = .ok (markerSettings "hidden") ∧
    Config.ofVariables (markerSettings "hidden") = .ok (markerConfig "hidden") ∧
    Document.parse remarkedShopText = .ok remarkedShop ∧
    ∃ c, remarkedShop.compile (withoutInternalBy "hidden") = .ok (.compiled c) ∧
      c.document.uses "hidden" = true ∧
      Document.parse c.sdl = .ok c.document := by
  have hread : Document.parse remarkedShopText = .ok remarkedShop := rfl
  obtain ⟨hsome, hwell⟩ := Document.wellFormed_definitions_of_parse hread
  have hsource : Document.parse remarkedShop.render = .ok remarkedShop :=
    Document.parse_render_iff.2 ⟨hsome, hwell, List.isChain_singleton _⟩
  have hmarker : IsNameText (((markerSettings "hidden").lookup none Config.markerVariable).getD
      defaultMarker) := by decide
  refine ⟨rfl, rfl, hread, _, rfl, by decide +kernel, ?_⟩
  exact (@Document.compile_readable_iff remarkedShop (withoutInternalBy "hidden") _
    (markerSettings "hidden") (markerSettings "hidden") none remarkedShopText rfl rfl hread rfl).2
    ⟨hsource, Or.inl hmarker⟩

/-- An empty text is no name, and the contract in which it marks the ledger cannot be read back. -/
theorem remarkedShop_unreadable :
    (markerSettings "").withFile none = .ok (markerSettings "") ∧
    Config.ofVariables (markerSettings "") = .ok (markerConfig "") ∧
    Document.parse remarkedShopText = .ok remarkedShop ∧
    ∃ c, remarkedShop.compile (withoutInternalBy "")
        = .ok (.compiled c) ∧
      c.sdl = unnamedContract ∧
      Document.parse unnamedContract = .error ⟨.expected "Name" (.punctuator .braceR), ⟨4, 1⟩⟩ := by
  have hread : failure? (Document.parse unnamedContract)
      = some ⟨.expected "Name" (.punctuator .braceR), ⟨4, 1⟩⟩ := by decide +kernel
  exact ⟨rfl, rfl, rfl, _, rfl, by decide +kernel, failure?_eq_some_iff.1 hread⟩

end SchemaView
