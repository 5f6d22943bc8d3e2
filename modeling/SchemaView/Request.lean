import SchemaView.Rule
import SchemaView.Text.Blank
import SchemaView.Text.Hex

/-!
# Requests for contracts

A contract is a rule with a name for a target. A request is checked before its contract is made;
every violation is reported. Among the contracts of a target each name is used once.
-/

namespace SchemaView

/-- A value that a caller sends under a key. -/
inductive SentValue where
  | null
  | flag (value : Bool)
  | text (value : String)
  | texts (values : List String)
deriving DecidableEq, Repr

/-- What a caller sends: values by their keys. -/
abbrev SentFields := OrderedMap String SentValue

namespace SentValue

/-- Whether a value means yes. -/
def isTrue : SentValue → Bool
  | null => false
  | flag value => value
  | text value => !value.isEmpty
  | texts values => !values.isEmpty

/-- The text that a value is, if it is one. -/
def text? : SentValue → Option String
  | text value => some value
  | null | flag _ | texts _ => none

/-- The tags that a value chooses. -/
def tags : SentValue → TagChoice
  | text tag => .one tag
  | texts tags => .many tags
  | null | flag _ => .unset

/-- The value that sends a list of tags, or that there is none. -/
def ofTags? : Option (List String) → SentValue
  | some tags => texts tags
  | none => null

end SentValue

/-- The fields that a caller sent. An outer `none` is a field that was left out. -/
structure Payload where
  /-- The target, if it was sent as text. -/
  targetId : Option String
  /-- The name of the contract under its newer key. -/
  userSpecifiedId : Option (Option String)
  /-- The name of the contract under its older key. -/
  contractName : Option (Option String)
  includeTags : Option (List String)
  excludeTags : Option (List String)
  removeUnreachable : Option Bool

/-- A request for a contract. -/
structure Request where
  targetId : String
  contractName : Option String
  includeTags : Option (List String)
  excludeTags : Option (List String)
  removeUnreachable : Bool

/-- A contract that may be stored. -/
structure Contract where
  id : String
  targetId : String
  name : Option String
  rule : Rule
  createdAt : String

/-- The request that a caller sent. The newer key of the name counts if it is there at all, and
unreachable types are removed unless the caller says otherwise. A target that is no text is as
good as none. -/
def Payload.request (p : Payload) : Request where
  targetId := p.targetId.getD ""
  contractName := p.userSpecifiedId.getD (p.contractName.getD none)
  includeTags := p.includeTags
  excludeTags := p.excludeTags
  removeUnreachable := p.removeUnreachable.getD true

/-- Reads the fields that a caller sent. A field of tags that is not there chooses none. -/
def Payload.ofFields (fields : SentFields) : Payload where
  targetId := (fields.get? "targetId").bind SentValue.text?
  userSpecifiedId := (fields.get? "userSpecifiedContractId").map SentValue.text?
  contractName := (fields.get? "contractName").map SentValue.text?
  includeTags := ((fields.get? "includeTags").getD .null).tags.list?
  excludeTags := ((fields.get? "excludeTags").getD .null).tags.list?
  removeUnreachable :=
    (fields.get? "removeUnreachableTypesFromPublicApiSchema").map SentValue.isTrue

/-- The request that a caller sent, from its fields. -/
def Request.ofFields (fields : SentFields) : Request := (Payload.ofFields fields).request

/-- A rule as it is written to callers: the same keys under which a request has one. -/
def RuleSummary.fields (s : RuleSummary) : SentFields :=
  .ofList [("includeTags", .ofTags? s.includeTags), ("excludeTags", .ofTags? s.excludeTags),
    ("removeUnreachableTypesFromPublicApiSchema", .flag s.removeUnreachable)]

/-- A rule as it is written to callers. -/
def Rule.fields (r : Rule) : SentFields := r.summary.fields

/-- The fields that send a rule. -/
def RuleSummary.payload (s : RuleSummary) : Payload where
  targetId := none
  userSpecifiedId := none
  contractName := none
  includeTags := s.includeTags
  excludeTags := s.excludeTags
  removeUnreachable := some s.removeUnreachable

/-- Whether a text is a target: groups of 8, 4, 4, 4 and 12 hexadecimal digits with hyphens
between them. -/
def isTargetId (text : String) : Bool :=
  let groups := Text.cutAt '-' [] text.toList
  groups.map List.length == [8, 4, 4, 4, 12]
    && groups.all fun group => group.all fun c => (Text.hexValue? c).isSome

/-- A target has to be a well-formed identifier. -/
def checkTarget (targetId : Option String) : Verdict :=
  if isTargetId (targetId.getD "") then [] else [.invalidTarget]

/-- A name has to be of a permitted length and new among the existing ones. A contract need not
have a name. -/
def checkName (name : Option String) (existing : List String) : Verdict :=
  match name with
  | none => []
  | some name =>
    if name.length < minNameLength then [.nameTooShort]
    else if maxNameLength < name.length then [.nameTooLong]
    else if existing.contains name then [.nameTaken]
    else []

namespace Request

/-- The rule that is asked for. -/
def rule (r : Request) : Rule := .ofChoices r.includeTags r.excludeTags r.removeUnreachable

/-- Everything that is wrong with a request: its target, its name, its rule. -/
def check (r : Request) (existing : List String) : Verdict :=
  checkTarget (some r.targetId) ++ checkName r.contractName existing ++ r.rule.check

/-- The contract that is asked for, unless something is wrong with the request. -/
def create (r : Request) (existing : List String) (id createdAt : String) :
    Except Verdict Contract :=
  match r.check existing with
  | [] => .ok ⟨id, r.targetId, r.contractName, r.rule, createdAt⟩
  | violations => .error violations

end Request

/-- The names in use after a request was answered: that of a new contract is one of them. -/
def namesAfter (existing : List String) : Except Verdict Contract → List String
  | .ok contract => existing ++ contract.name.toList
  | .error _ => existing

/-- Answers requests one after the other; the first argument makes the identifier of a contract
from the number of its request. -/
def createAll (makeId : Nat → String) (createdAt : String) :
    Nat → List String → List Request → List (Except Verdict Contract)
  | _, _, [] => []
  | number, existing, r :: requests =>
    let answer := r.create existing (makeId number) createdAt
    answer :: createAll makeId createdAt (number + 1) (namesAfter existing answer) requests

/-- What a caller is told about every rejected request. -/
def rejectionMessage : String := "Something went wrong."

/-- A contract as callers receive it. -/
structure ContractSummary where
  id : String
  targetId : String
  name : Option String
  includeTags : Option (List String)
  excludeTags : Option (List String)
  createdAt : String
deriving DecidableEq, Repr

/-- The contract as callers receive it. -/
def Contract.summary (c : Contract) : ContractSummary :=
  ⟨c.id, c.targetId, c.name, tagList? c.rule.includeTags, tagList? c.rule.excludeTags, c.createdAt⟩

/-- What callers receive about a rejected request: one message for all, and one for each field. -/
structure Rejection where
  message : String
  details : OrderedMap RequestField (Option String)

/-- What callers receive: a new contract, or why there is none. -/
structure Response where
  created : Option ContractSummary
  rejection : Option Rejection

/-- What became of a request: the contract, if one was made, and what was found wrong. -/
structure Creation where
  contract : Option Contract
  verdict : Verdict

namespace Creation

/-- What became of a request, from the answer to it. -/
def ofAnswer : Except Verdict Contract → Creation
  | .ok contract => ⟨some contract, []⟩
  | .error verdict => ⟨none, verdict⟩

/-- A request has succeeded if there is a contract and nothing was found wrong. -/
def succeeded (c : Creation) : Bool := c.contract.isSome && c.verdict.passed

/-- What the caller receives. -/
def response (c : Creation) : Response :=
  if c.succeeded then ⟨c.contract.map Contract.summary, none⟩
  else ⟨none, some ⟨rejectionMessage, c.verdict.details⟩⟩

end Creation

end SchemaView
