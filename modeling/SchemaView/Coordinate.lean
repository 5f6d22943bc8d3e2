import SchemaView.Sdl.Tree
import SchemaView.Text.Blank

/-!
# Schema coordinates

A coordinate names an element of a schema: a type, a member of a type (a field, an input field or
an enum value), or an argument of a field. It is written as one, two or three names with dots
between them, and every such text with no empty part is a coordinate.
-/

namespace SchemaView

open Sdl (Name)

/-- The name of an element of a schema. -/
inductive Coordinate where
  | type (type : Name)
  | member (type member : Name)
  | argument (type member argument : Name)
deriving DecidableEq, Repr

namespace Coordinate

/-- The names of a coordinate, outermost first. -/
def parts : Coordinate → List Name
  | type t => [t]
  | member t m => [t, m]
  | argument t m a => [t, m, a]

/-- A coordinate as text. -/
def render (c : Coordinate) : String := ".".intercalate c.parts

/-- The type that the element belongs to. -/
def typeName : Coordinate → Name
  | type t | member t _ | argument t _ _ => t

/-- The name of the member, if the element is one or belongs to one. -/
def memberName? : Coordinate → Option Name
  | type _ => none
  | member _ m | argument _ m _ => some m

/-- The name of the argument, if the element is one. -/
def argumentName? : Coordinate → Option Name
  | type _ | member _ _ => none
  | argument _ _ a => some a

/-- Whether the element is a type. -/
def isType : Coordinate → Bool
  | type _ => true
  | member _ _ | argument _ _ _ => false

/-- The coordinate with given names, of which there are one to three, none of them empty. -/
def ofParts? (names : List Name) : Option Coordinate :=
  if names.any String.isEmpty then none
  else
    match names with
    | [t] => some (type t)
    | [t, m] => some (member t m)
    | [t, m, a] => some (argument t m a)
    | _ => none

/-- The coordinate that a text writes. -/
def parse? (text : String) : Option Coordinate := ofParts? (Text.split '.' text)

/-- The part of any text in front of its first dot. -/
def typeNameOfText (text : String) : Name :=
  String.ofList (text.toList.takeWhile (· != '.'))

/-- Whether a text has no dot, as the coordinates of types have none. -/
def isTypeText (text : String) : Bool := !text.toList.contains '.'

/-- Reading names accepts exactly the names of a coordinate without empty parts. -/
theorem ofParts?_eq_some_iff {names : List Name} {c : Coordinate} :
    ofParts? names = some c ↔ c.parts = names ∧ names.any String.isEmpty = false := by
  unfold ofParts?
  by_cases h : names.any String.isEmpty = true
  · simp [h]
  · rcases names with _ | ⟨t, _ | ⟨m, _ | ⟨a, _ | ⟨x, xs⟩⟩⟩⟩ <;> cases c <;>
      simp_all [parts] <;> grind

end Coordinate

end SchemaView
