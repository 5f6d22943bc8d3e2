import SchemaView.Ownership
import SchemaView.Rule
import SchemaView.Tags

/-!
# What a rule hides

The elements that a tag rule hides, with the reasons. Fields, input fields, enum values and
arguments are judged by their own tags. A type is judged by its exclude tags; scalars and unions,
which have no members, by the include tags as well; and a type all of whose members are hidden is
hidden with them. Members declared in extensions count as members of the type, and of members
with one name the first declaration decides.
-/

namespace SchemaView

open Sdl

/-- The hidden elements with the reasons, in the order in which they were found. -/
abbrev Exclusions := OrderedMap Coordinate Reason

/-- Leaves out every member whose name an earlier one has. -/
def firstDeclarations : List Member → List Member
  | [] => []
  | m :: ms => m :: (firstDeclarations ms).filter fun other => other.name != m.name

/-- Whether a rule is applied to an element: it has an owner, or owners do not matter. -/
def isOwned (ownership : Option Ownership) (c : Coordinate) : Bool :=
  match ownership with
  | some o => !(o.owners c).isEmpty
  | none => true

/-- Whether the types of a kind have no members by which they could be judged. -/
def isMemberless : TypeBody → Bool
  | .scalar | .union _ => true
  | .object _ _ | .interface _ _ | .enum _ | .inputObject _ => false

/-- A rule with all that it is applied by. -/
structure Filter where
  rule : Rule
  tags : TagMap
  /-- The owners of elements, if elements without owners are not to be hidden. -/
  ownership : Option Ownership

namespace Filter

/-- Why an element is hidden by its own tags, if it is. -/
def reason? (f : Filter) (c : Coordinate) : Option Reason := f.rule.reason? (f.tags.of c) true

/-- The members of a type to which the rule is applied. -/
def judgedMembers (f : Filter) (type : Name) (t : NamedType) : List Member :=
  (firstDeclarations t.members).filter fun m => isOwned f.ownership (.member type m.name)

/-- Elements that are hidden by their own tags, with the reasons. -/
def hidden (f : Filter) (elements : List Coordinate) : List (Coordinate × Reason) :=
  elements.filterMap fun c => (f.reason? c).map fun reason => (c, reason)

/-- Why a type is hidden, if it is. -/
def typeReason? (f : Filter) (type : Name) (t : NamedType) : Option Reason :=
  let members := f.judgedMembers type t
  match f.rule.reason? (f.tags.of (.type type)) (isMemberless t.definition.body) with
  | some reason => some reason
  | none =>
    if !members.isEmpty && members.all fun m => (f.reason? (.member type m.name)).isSome then
      some .allMembersExcluded
    else none

/-- What is hidden of a type: arguments, then members, then the type. -/
def typeExclusions (f : Filter) (type : Name) (t : NamedType) : List (Coordinate × Reason) :=
  let members := f.judgedMembers type t
  f.hidden (members.flatMap fun m => m.arguments.map fun a => .argument type m.name a.name)
    ++ f.hidden (members.map fun m => .member type m.name)
    ++ (if isOwned f.ownership (.type type) then
          ((f.typeReason? type t).map fun reason => (Coordinate.type type, reason)).toList
        else [])

/-- What is hidden of a document, some types left out of account. -/
def exclusions (f : Filter) (d : Document) (skip : NameSet) : Exclusions :=
  .ofList ((d.types.entries.filter fun e => !decide (e.1 ∈ skip)).flatMap fun e =>
    f.typeExclusions e.1 e.2)

end Filter

end SchemaView
