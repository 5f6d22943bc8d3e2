import SchemaView.Contract.Compilation
import SchemaView.Text.Fixed

/-!
# Audits

Three gates check a compiled contract against what compiling promises: marking it again changes
nothing, every public type is reached, and protected types were not marked.
-/

namespace SchemaView

open Sdl (Name TypeDecl)

/-- The gates. -/
inductive Gate where
  | markerIdempotence
  | publicSurface
  | protectedTypes
deriving DecidableEq, Repr

/-- The name of a gate in reports. -/
def Gate.label : Gate → String
  | markerIdempotence => "contract_marker_idempotence"
  | publicSurface => "contract_public_surface_reachability"
  | protectedTypes => "contract_protected_types_untouched"

/-- What a gate has found. -/
structure GateReport where
  gate : Gate
  passed : Bool
  total : Nat
  succeeded : Nat
  details : String

/-- How many binary digits a share is kept with. -/
def shareDigits : Nat := 53

/-- The share of the checks that succeeded, with six decimals; all of none. -/
def GateReport.rate (r : GateReport) : String :=
  if r.total = 0 then "1.000000"
  else
    let share := Text.binaryQuotient shareDigits r.succeeded r.total
    Text.fixedQuotient 6 share.1 share.2

/-- The result of a gate that has nothing to check. -/
def GateReport.skipped (gate : Gate) (why : String) : GateReport :=
  ⟨gate, true, 0, 0, "SKIP: " ++ why⟩

/-- The result of a gate that checks each of some types and names up to five of those that fail. -/
def GateReport.ofTypes (gate : Gate) (checked failed : List Name) (goodWord badWord : String) :
    GateReport :=
  let good := checked.length - failed.length
  let summary := goodWord ++ "=" ++ toString good ++ "/" ++ toString checked.length
  let details :=
    if failed.isEmpty then summary
    else summary ++ "; " ++ badWord ++ "=" ++ Text.quotedList (failed.take 5)
  ⟨gate, failed.isEmpty, checked.length, good, details⟩

namespace Document

/-- The types whose definitions are not marked. -/
def unmarkedTypes (d : Document) (marker : Name) : List Name :=
  (d.definedTypes.entries.filter fun e => !carries marker e.2.directives).map Prod.fst

end Document

namespace Compilation

/-- The contract schema after it was marked once more. -/
def remarked (c : Compilation) (config : Config) : Document :=
  (c.document.markAt config.marker c.exclusions.keys).markTypes config.marker
    (.ofList (c.document.unmarkedTypes config.marker))

/-- Marking once more what is recorded as hidden changes nothing in the printed schema. -/
def idempotenceAudit (c : Compilation) (config : Config) : GateReport :=
  if (c.remarked config).render = c.sdl then ⟨.markerIdempotence, true, 1, 1, ""⟩
  else ⟨.markerIdempotence, false, 1, 0, "re-marking changed the contract SDL"⟩

/-- Every type that is neither marked nor protected is reached past marked elements. -/
def surfaceAudit (c : Compilation) (config : Config) : Except Error GateReport := do
  if !c.rule.removeUnreachable then
    pure (.skipped .publicSurface "unreachable types are kept by this rule")
  else
    let kept ← c.document.protectedTypes config
    let reached ← c.document.reachable (some config.marker)
    let surface := (c.document.unmarkedTypes config.marker).filter fun name =>
      !decide (name ∈ kept)
    let dangling := surface.filter fun name => !decide (name ∈ reached)
    pure (.ofTypes .publicSurface surface dangling "reachable_public" "dangling")

/-- Whether a type is marked in the contract schema but not in the source, given the types of
both. -/
def isTouched (compiled source : OrderedMap Name TypeDecl) (marker : Name) (type : Name) :
    Except Error Bool :=
  match compiled.get? type, source.get? type with
  | some after, some before =>
    .ok (carries marker after.directives && !carries marker before.directives)
  | _, _ => .error (.noSuchType type)

/-- No protected type of the source was marked. -/
def protectedAudit (c : Compilation) (source : Document) (config : Config) :
    Except Error GateReport := do
  let compiled := c.document.definedTypes
  let before := source.definedTypes
  let guarded := (← source.protectedTypes config).names.filter before.contains
  if guarded.isEmpty then pure (.skipped .protectedTypes "no protected types defined")
  else
    let touched ← guarded.filterM (isTouched compiled before config.marker)
    pure (.ofTypes .protectedTypes guarded touched "untouched" "touched")

/-- The results of all gates. -/
def audits (c : Compilation) (source : Document) (config : Config) :
    Except Error (List GateReport) := do
  pure [c.idempotenceAudit config, ← c.surfaceAudit config, ← c.protectedAudit source config]

end Compilation

end SchemaView
