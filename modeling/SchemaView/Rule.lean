import SchemaView.NameSet
import SchemaView.Verdict

/-!
# Tag rules

A rule hides elements by their tags: those that carry an exclude tag and, if there are include
tags, those that carry none of them. An exclude tag decides first. No tags at all are told apart
from an empty choice of tags, although both hide nothing.
-/

namespace SchemaView

/-- Why an element is hidden. -/
inductive Reason where
  | missingIncludeTag
  | excludedTag
  | allMembersExcluded
  | unreachable
deriving DecidableEq, Repr

/-- The name of a reason in reports. -/
def Reason.label : Reason → String
  | missingIncludeTag => "missing_include_tag"
  | excludedTag => "excluded_tag"
  | allMembersExcluded => "all_members_excluded"
  | unreachable => "unreachable"

/-- A rule. -/
structure Rule where
  /-- Tags of which an element needs one to stay visible. -/
  includeTags : Option NameSet
  /-- Tags that hide an element. -/
  excludeTags : Option NameSet
  /-- Whether types are hidden that nothing visible reaches. -/
  removeUnreachable : Bool

/-- Tags as callers choose them: not at all, a single one, or any number of them, where tags may be
empty or repeated. -/
inductive TagChoice where
  | unset
  | one (tag : String)
  | many (tags : List String)
deriving DecidableEq, Repr

/-- The tags of a choice. A single tag is as good as a list of it. -/
def TagChoice.list? : TagChoice → Option (List String)
  | unset => none
  | one tag => some [tag]
  | many tags => some tags

/-- A choice of tags as a set. Empty tags are dropped; every other tag counts as it is written. -/
def chosenTags (tags : Option (List String)) : Option NameSet :=
  tags.map fun tags => .ofList (tags.filter fun tag => !tag.isEmpty)

/-- The tags of a choice in ascending order, unless there are none. -/
def tagList? (tags : Option NameSet) : Option (List String) :=
  match tags with
  | some tags => if tags.isEmpty then none else some tags.names
  | none => none

/-- A rule as callers send and receive it. -/
structure RuleSummary where
  includeTags : Option (List String)
  excludeTags : Option (List String)
  removeUnreachable : Bool
deriving DecidableEq, Repr

namespace Rule

/-- The rule with given choices of tags. -/
def ofChoices (includeTags excludeTags : Option (List String)) (removeUnreachable : Bool) : Rule :=
  ⟨chosenTags includeTags, chosenTags excludeTags, removeUnreachable⟩

/-- The rule that callers choose. -/
def ofTags (includeTags excludeTags : TagChoice) (removeUnreachable : Bool) : Rule :=
  .ofChoices includeTags.list? excludeTags.list? removeUnreachable

/-- The include tags; none if they were not chosen. -/
def included (r : Rule) : NameSet := r.includeTags.getD .empty

/-- The exclude tags; none if they were not chosen. -/
def excluded (r : Rule) : NameSet := r.excludeTags.getD .empty

/-- Why an element with given tags is hidden, if it is. Include tags may be left out of account. -/
def reason? (r : Rule) (tags : NameSet) (applyInclude : Bool) : Option Reason :=
  if tags.meets r.excluded then some .excludedTag
  else if applyInclude && !r.included.isEmpty && !tags.meets r.included then
    some .missingIncludeTag
  else none

/-- Whether an element with given tags is hidden. -/
def hides (r : Rule) (tags : NameSet) : Bool := (r.reason? tags true).isSome

/-- A rule needs a tag, and no tag may be both included and excluded. -/
def check (r : Rule) : Verdict :=
  if r.included.isEmpty && r.excluded.isEmpty then [.noTags]
  else if r.included.meets r.excluded then [.tagsIntersect]
  else []

/-- The rule as callers receive it. -/
def summary (r : Rule) : RuleSummary :=
  ⟨tagList? r.includeTags, tagList? r.excludeTags, r.removeUnreachable⟩

end Rule

end SchemaView
