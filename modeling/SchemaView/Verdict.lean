import SchemaView.OrderedMap

/-!
# Verdicts on what users give

A rule or a request that breaks a condition is no failure of the library: every violation is
collected, in the order in which the conditions are checked, and reported by the field that it
concerns. Nothing is wrong exactly when the list is empty.
-/

namespace SchemaView

/-- The fields of a request. -/
inductive RequestField where
  | targetId | contractName | includeTags | excludeTags
deriving DecidableEq, Repr

/-- The fields in the order in which answers list them. -/
def RequestField.all : List RequestField := [targetId, contractName, includeTags, excludeTags]

theorem RequestField.mem_all (field : RequestField) : field ∈ all := by
  cases field <;> decide

/-- The name of a field in requests and answers. -/
def RequestField.label : RequestField → String
  | targetId => "targetId"
  | contractName => "contractName"
  | includeTags => "includeTags"
  | excludeTags => "excludeTags"

/-- The conditions that rules and requests can break. -/
inductive Violation where
  | invalidTarget
  | nameTooShort
  | nameTooLong
  | nameTaken
  | noTags
  | tagsIntersect
deriving DecidableEq, Repr

/-- The smallest length of a contract name. -/
def minNameLength : Nat := 2

/-- The greatest length of a contract name. -/
def maxNameLength : Nat := 64

namespace Violation

/-- The code by which callers tell violations apart. -/
def code : Violation → String
  | invalidTarget => "InvalidTargetId"
  | nameTooShort | nameTooLong => "InvalidIdentifier"
  | nameTaken => "DuplicateIdentifier"
  | noTags => "NoTagsProvided"
  | tagsIntersect => "TagsIntersect"

/-- The field that a violation is attributed to. -/
def field : Violation → RequestField
  | invalidTarget => .targetId
  | nameTooShort | nameTooLong | nameTaken => .contractName
  | noTags | tagsIntersect => .includeTags

/-- The wording of a violation. -/
def message : Violation → String
  | invalidTarget => "Invalid uuid"
  | nameTooShort => "String must contain at least " ++ toString minNameLength ++ " character(s)"
  | nameTooLong => "String must contain at most " ++ toString maxNameLength ++ " character(s)"
  | nameTaken => "Must be unique across all target contracts."
  | noTags => "Provide at least one value for either included tags or excluded tags"
  | tagsIntersect => "Included and exclude tags must not intersect"

end Violation

/-- The violations that a check has found. -/
abbrev Verdict := List Violation

/-- Whether nothing is wrong. -/
def Verdict.passed (v : Verdict) : Bool := v.isEmpty

/-- Writes the message of a violation to its field, unless one is there already. -/
def noteMessage (details : OrderedMap RequestField (Option String)) (violation : Violation) :
    OrderedMap RequestField (Option String) :=
  match details.get? violation.field with
  | some (some _) => details
  | some none | none => details.insert violation.field (some violation.message)

/-- The messages by fields, none for a field without violations. -/
def Verdict.details (v : Verdict) : OrderedMap RequestField (Option String) :=
  v.foldl noteMessage (.ofList (RequestField.all.map fun field => (field, none)))

/-- The message for a field: that of its first violation. -/
def Verdict.messageFor (v : Verdict) (field : RequestField) : Option String :=
  (v.find? fun violation => violation.field = field).map Violation.message

end SchemaView
