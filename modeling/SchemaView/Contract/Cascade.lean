import SchemaView.Marking
import SchemaView.TypeGraph.Reachable

/-!
# The cascade

Hiding elements can leave types that nothing visible reaches. A pass of the cascade marks all of
them; passes are repeated while there is something to mark. Marking a type that is not reached
changes nothing about what is reached, so one pass is enough.
-/

namespace SchemaView

open Sdl (Name)

/-- What a cascade has done. -/
structure CascadeResult where
  document : Document
  /-- The types that were marked, in the order of the document, pass by pass. -/
  marked : List Name
  passes : Nat

namespace Document

/-- The types that a pass would mark: not reached, not to be kept, not marked yet. -/
def pendingTypes (d : Document) (marker : Name) (keep : NameSet) : List Name :=
  (d.definedTypes.entries.filter fun e =>
    !decide (e.1 ∈ keep) && !carries marker e.2.directives).map Prod.fst

/-- Runs passes, at most as many as the last argument says. `limit` is the bound that the failure
reports. -/
def cascadeWithin (marker : Name) (keep : NameSet) (limit : Int) :
    Nat → Document → Except Error CascadeResult
  | passes, d => do
    let visible := (← d.reachable (some marker)).union keep
    let pending := d.pendingTypes marker visible
    if pending.isEmpty then pure ⟨d, [], 0⟩
    -- There is something to mark, so a pass has to be left.
    else
      match passes with
      | 0 => throw (.cascadeUnfinished limit pending)
      | passes + 1 =>
        let after ← cascadeWithin marker keep limit passes (d.markTypes marker visible)
        pure ⟨after.document, pending ++ after.marked, after.passes + 1⟩

/-- Marks every type that the roots do not reach past marked elements, those to keep apart. -/
def cascade (d : Document) (marker : Name) (keep : NameSet) (limit : Int) :
    Except Error CascadeResult :=
  cascadeWithin marker keep limit limit.toNat d

end Document

end SchemaView
