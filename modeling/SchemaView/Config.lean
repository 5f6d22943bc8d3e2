import SchemaView.Error
import SchemaView.NameSet
import SchemaView.Tags

/-!
# Configuration

The names and limits under which schemas are compiled.
-/

namespace SchemaView

open Sdl (Name)

/-- The types that composition of a supergraph generates and that are never hidden. -/
def composedTypes : NameSet :=
  .ofList ["join__Graph", "join__FieldSet", "link__Import", "link__Purpose"]

/-- The usual name of the marker. -/
def defaultMarker : Name := "inaccessible"

/-- The usual bound on the passes of a cascade. -/
def defaultMaxPasses : Nat := 2

/-- A configuration. -/
structure Config where
  /-- The directive that hides an element. -/
  marker : Name
  /-- The tag directive of documents that do not link its specification. -/
  tagDirective : Name
  /-- Types that are never hidden. -/
  protectedTypes : NameSet
  /-- How many passes a cascade may take. -/
  maxPasses : Nat
  /-- Whether a definition of the marker is added where it is missing. -/
  ensureMarker : Bool
  /-- One pass is always allowed. -/
  one_le_maxPasses : 1 ≤ maxPasses

namespace Config

/-- The usual configuration, which suits supergraphs. -/
def default : Config where
  marker := defaultMarker
  tagDirective := defaultTagDirective
  protectedTypes := composedTypes
  maxPasses := defaultMaxPasses
  ensureMarker := true
  one_le_maxPasses := by decide

/-- The configuration for schemas that are not composed of subgraphs. -/
def plain : Config := { default with protectedTypes := .empty }

/-- The configuration with given names and limits, unless no pass is allowed. -/
def create (marker tagDirective : Name) (protectedTypes : NameSet) (maxPasses : Int)
    (ensureMarker : Bool) : Except Error Config :=
  if h : 1 ≤ maxPasses then
    .ok ⟨marker, tagDirective, protectedTypes, maxPasses.toNat, ensureMarker, by omega⟩
  else .error (.passLimitTooSmall maxPasses)

/-- The configuration with further protected types. -/
def protecting (c : Config) (names : List Name) : Config :=
  { c with protectedTypes := c.protectedTypes.union (.ofList names) }

end Config

end SchemaView
