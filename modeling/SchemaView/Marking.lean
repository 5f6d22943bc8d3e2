import SchemaView.Document
import SchemaView.Error
import SchemaView.NameSet

/-!
# Marking

Elements are hidden by a marker, a directive without arguments. `Document.mark` puts the marker
on every element whose coordinate passes a test, at the end of the directives of the element and
only where it is missing. All other parts of the document stay, and so do number and order of its
definitions. The ways to say which elements are meant are instances of it.
-/

namespace SchemaView

open Sdl

/-- Directives with the marker among them: at the end, unless it is there already. -/
def markDirectives (marker : Name) (directives : List Directive) : List Directive :=
  if carries marker directives then directives else directives ++ [⟨marker, []⟩]

/-- Directives with the marker among them if a condition holds. -/
def markIf (condition : Bool) (marker : Name) (directives : List Directive) : List Directive :=
  if condition then markDirectives marker directives else directives

/-- Marks an argument of a field. -/
def markArgument (marker : Name) (hit : Coordinate → Bool) (type field : Name)
    (a : InputValue) : InputValue :=
  { a with directives := markIf (hit (.argument type field a.name)) marker a.directives }

/-- Marks a field and its arguments. -/
def markField (marker : Name) (hit : Coordinate → Bool) (type : Name) (f : Field) : Field :=
  { f with
    arguments := f.arguments.map (markArgument marker hit type f.name)
    directives := markIf (hit (.member type f.name)) marker f.directives }

/-- Marks an input field. -/
def markInputField (marker : Name) (hit : Coordinate → Bool) (type : Name) (f : InputValue) :
    InputValue :=
  { f with directives := markIf (hit (.member type f.name)) marker f.directives }

/-- Marks an enum value. -/
def markEnumValue (marker : Name) (hit : Coordinate → Bool) (type : Name) (v : EnumValue) :
    EnumValue :=
  { v with directives := markIf (hit (.member type v.name)) marker v.directives }

/-- Marks the members of a type and their arguments. -/
def markBody (marker : Name) (hit : Coordinate → Bool) (type : Name) : TypeBody → TypeBody
  | .scalar => .scalar
  | .object interfaces fields => .object interfaces (fields.map (markField marker hit type))
  | .interface interfaces fields =>
    .interface interfaces (fields.map (markField marker hit type))
  | .union members => .union members
  | .enum values => .enum (values.map (markEnumValue marker hit type))
  | .inputObject fields => .inputObject (fields.map (markInputField marker hit type))

/-- Marks a declaration of a type and what it declares. -/
def markDeclaration (marker : Name) (hit : Coordinate → Bool) (d : TypeDecl) : TypeDecl :=
  { d with
    directives := markIf (hit (.type d.name)) marker d.directives
    body := markBody marker hit d.name d.body }

/-- Marks a definition. Only declarations of types can be marked. -/
def markDefinition (marker : Name) (hit : Coordinate → Bool) : Definition → Definition
  | .type d => .type (markDeclaration marker hit d)
  | .typeExtension d => .typeExtension (markDeclaration marker hit d)
  | other => other

/-- The places where a marker may stand, in a definition that this library adds. -/
def markerPlaces : List Name :=
  ["FIELD_DEFINITION", "OBJECT", "INTERFACE", "UNION", "ARGUMENT_DEFINITION", "SCALAR", "ENUM",
   "ENUM_VALUE", "INPUT_OBJECT", "INPUT_FIELD_DEFINITION"]

namespace Document

/-- Marks every element whose coordinate passes a test. -/
def mark (d : Document) (marker : Name) (hit : Coordinate → Bool) : Document :=
  ⟨d.definitions.map (markDefinition marker hit)⟩

/-- Marks every definition and extension of a type, except those of the types to keep. -/
def markTypes (d : Document) (marker : Name) (keep : NameSet) : Document :=
  d.mark marker fun c => c.isType && !decide (c.typeName ∈ keep)

/-- Marks the elements at given coordinates. -/
def markAt (d : Document) (marker : Name) (coordinates : List Coordinate) : Document :=
  d.mark marker fun c => decide (c ∈ coordinates)

/-- Marks the elements that texts name, all of which have to be coordinates. -/
def markTexts (d : Document) (marker : Name) (texts : List String) : Except Error Document := do
  pure (d.markAt marker (← texts.mapM Coordinate.parse))

/-- Appends a definition of the marker unless the document defines it. -/
def ensureMarker (d : Document) (marker : Name) : Document :=
  if d.definedDirectives.contains marker then d
  else ⟨d.definitions ++ [.directive ⟨none, marker, [], false, markerPlaces⟩]⟩

end Document

/-! ## Lemmas -/

/-- Directives that were marked have the marker. -/
theorem carries_markDirectives (marker : Name) (directives : List Directive) :
    carries marker (markDirectives marker directives) = true := by
  unfold markDirectives
  split
  · assumption
  · simp [carries]

/-- Marking twice is marking where either test holds. -/
theorem markIf_markIf (a b : Bool) (marker : Name) (directives : List Directive) :
    markIf b marker (markIf a marker directives) = markIf (a || b) marker directives := by
  cases a <;> cases b <;>
    simp [markIf, markDirectives]
  split <;> simp_all [carries]

end SchemaView
