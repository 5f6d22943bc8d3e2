import SchemaView.Document
import SchemaView.NameSet

/-!
# Tags

Elements of a schema are tagged by uses of a tag directive. A document may give that directive
another name by linking its specification under an alias. `Document.tags` collects the tags of
every element; extensions count as part of their type.
-/

namespace SchemaView

open Sdl

/-- The tags of each element that has any, in the order of the document. -/
abbrev TagMap := OrderedMap Coordinate NameSet

/-- The usual name of the tag directive. -/
def defaultTagDirective : Name := "tag"

/-- The address at which the specifications of the tag directive are published. -/
def tagSpecification : String := "https://specs.apollo.dev/tag/"

/-- Whether a use of the link directive links a specification of the tag directive. -/
def linksTags (d : Directive) : Bool :=
  match textArgument? "url" d with
  | some url => tagSpecification.toList.isPrefixOf url.toList
  | none => false

/-- The name under which a link makes the tag directive known. -/
def linkedName (d : Directive) : Name :=
  match textArgument? "as" d with
  | some given => if given.isEmpty then defaultTagDirective else given
  | none => defaultTagDirective

/-- The name of the tag directive in a document: that of the first link to its specification, or
else the given one. -/
def Document.tagDirective (d : Document) (default : Name) : Name :=
  match (d.schemaDeclarations.flatMap fun s => usesOf "link" s.directives).find? linksTags with
  | some link => linkedName link
  | none => default

/-- The tags that directives give, empty ones left out. -/
def tagsIn (tagDirective : Name) (directives : List Directive) : List String :=
  (usesOf tagDirective directives).filterMap fun d =>
    (textArgument? "name" d).filter fun tag => !tag.isEmpty

/-- Adds the tags of a site to those that its element already has. -/
def recordTags (tagDirective : Name) (tags : TagMap) (site : Site) : TagMap :=
  match tagsIn tagDirective site.directives with
  | [] => tags
  | found =>
    tags.alter site.coordinate fun old? => (old?.getD .empty).union (.ofList found)

/-- The tags of the elements of a document, where the tag directive has the given name. -/
def Document.tagsBy (d : Document) (tagDirective : Name) : TagMap :=
  (d.types.values.flatMap fun t => t.declarations.flatMap sitesOf).foldl
    (recordTags tagDirective) .empty

/-- The tags of the elements of a document. A name that is missing or empty is found out from the
document. -/
def Document.tags (d : Document) (tagDirective : Option Name) : TagMap :=
  match tagDirective with
  | some name => d.tagsBy (if name.isEmpty then d.tagDirective defaultTagDirective else name)
  | none => d.tagsBy (d.tagDirective defaultTagDirective)

/-- All tags of a map. -/
def TagMap.all (tags : TagMap) : NameSet := tags.values.foldl NameSet.union .empty

/-- The tags of an element; it may have none. -/
def TagMap.of (tags : TagMap) (c : Coordinate) : NameSet := (tags.get? c).getD .empty

end SchemaView
