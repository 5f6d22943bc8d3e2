import SchemaView.Coordinate
import SchemaView.Sdl.Fault
import SchemaView.Text.Quoted

/-!
# What can go wrong

The failures of this library and their wording. Mistakes of a user in a rule or a request are no
failures: those are collected in a `Verdict`.
-/

namespace SchemaView

open Sdl (Name)

/-- The element from which a type is referred to. -/
inductive Referrer where
  /-- An extension of the type. -/
  | extension (type : Name)
  /-- A type, a field or an argument. -/
  | element (coordinate : Coordinate)
  /-- The root of an operation. -/
  | root (operation : Sdl.Operation)
deriving DecidableEq, Repr

/-- How messages call a referrer. -/
def Referrer.render : Referrer → String
  | extension type => "extend " ++ type
  | element c => c.render
  | root operation => "schema." ++ operation.word

/-- A failure. -/
inductive Error where
  /-- A text that is no schema. -/
  | unreadable (fault : Sdl.Fault)
  /-- No enum declares the subgraphs of the schema. -/
  | noSubgraphEnum
  /-- A graph symbol that stands for no subgraph is used on an element. -/
  | undeclaredGraph (symbol : Name) (element : Coordinate)
  /-- A reference to a type that is neither defined nor built in. -/
  | unknownType (name : Name) (referrer : Referrer)
  /-- Types are still to be marked after as many passes as are allowed. -/
  | cascadeUnfinished (limit : Int) (pending : List Name)
  /-- A text that is no coordinate. -/
  | malformedCoordinate (text : String)
  /-- A bound on passes below one. -/
  | passLimitTooSmall (limit : Int)
  /-- A variable or a path holds NUL, which ends texts that the system is given. -/
  | embeddedNul
  /-- The name of a variable holds an equals sign. -/
  | equalsSignInName
  /-- A type is looked up that is not there. -/
  | noSuchType (name : Name)
  /-- A definition is looked up by a number that no definition has. -/
  | noSuchDefinition (index : Int)
deriving DecidableEq, Repr

/-- The wording of a failure. -/
def Error.message : Error → String
  | unreadable fault => fault.message
  | noSubgraphEnum => "Supergraph does not define enum join__Graph"
  | undeclaredGraph symbol element =>
    "Graph '" ++ symbol ++ "' referenced from '" ++ element.render
      ++ "' is not declared with @join__graph on join__Graph"
  | unknownType name referrer =>
    "Unknown type '" ++ name ++ "' referenced from '" ++ referrer.render ++ "'"
  | cascadeUnfinished limit pending =>
    "Unreachable type cascade did not converge after " ++ toString limit
      ++ " iterations (still pending: " ++ Text.quotedList (pending.take 5) ++ ")"
  | malformedCoordinate text => "Invalid schema coordinate: " ++ Text.quoted text
  | passLimitTooSmall limit =>
    "max_cascade_iterations must be >= 1, got " ++ toString limit
  | embeddedNul => "embedded null byte"
  | equalsSignInName => "illegal environment variable name"
  | noSuchType name => "No type is named " ++ Text.quoted name
  | noSuchDefinition index => "No definition has the number " ++ toString index

/-- The coordinate that a text writes. -/
def Coordinate.parse (text : String) : Except Error Coordinate :=
  match parse? text with
  | some c => .ok c
  | none => .error (.malformedCoordinate text)

end SchemaView
