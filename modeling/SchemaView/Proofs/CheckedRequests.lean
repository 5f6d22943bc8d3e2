import Mathlib.Data.List.Nodup
import SchemaView.Proofs.CoordinateText
import SchemaView.Proofs.SentRules

/-!
# Checked requests

A request for a contract is accepted or rejected. Says without the computation what can be wrong
with a request, and shows that exactly this is reported: once for each field, in the order of the
fields, with the message of that field. What the caller receives is a contract if nothing is wrong,
and the messages otherwise.

## Key results

- `isTargetId_iff`: which texts are targets
- `checkTarget_cases`, `checkName_cases`, `checkRule_cases`: what each check can report
- `mem_check_iff`: what is reported is what is wrong
- `fields_check_sublist`: no field is reported twice, and the fields come in order
- `Verdict.get?_details`, `Verdict.messageFor_eq_some_iff`: each field is told the message of its
  first violation, which is the only one where no field is reported twice
- `Request.answered_exactly`: the answer to a request
-/

namespace SchemaView

/-! ## Targets -/

/-- A hexadecimal digit of either case. -/
def IsHexDigit (c : Char) : Prop :=
  ('0' ≤ c ∧ c ≤ '9') ∨ ('a' ≤ c ∧ c ≤ 'f') ∨ ('A' ≤ c ∧ c ≤ 'F')

theorem isSome_hexValue?_iff {c : Char} : (Text.hexValue? c).isSome = true ↔ IsHexDigit c := by
  unfold Text.hexValue? IsHexDigit
  split
  · simp_all
  · split
    · simp_all
    · split <;> simp_all

/-- A text that consists, from its first character to its last, of groups of 8, 4, 4, 4 and 12
    hexadecimal digits with one hyphen between two groups. -/
def IsTargetText (text : String) : Prop :=
  ∃ groups : List (List Char), groups.map List.length = [8, 4, 4, 4, 12] ∧
    (∀ group ∈ groups, ∀ c ∈ group, IsHexDigit c) ∧ text.toList = ['-'].intercalate groups

theorem isTargetId_iff {text : String} : isTargetId text = true ↔ IsTargetText text := by
  have hdigits : ∀ groups : List (List Char),
      (groups.all fun group => group.all fun c => (Text.hexValue? c).isSome) = true ↔
        ∀ group ∈ groups, ∀ c ∈ group, IsHexDigit c := by
    intro groups
    simp only [List.all_eq_true, isSome_hexValue?_iff]
  simp only [isTargetId, Bool.and_eq_true, beq_iff_eq, hdigits]
  constructor
  · rintro ⟨hlengths, hhex⟩
    exact ⟨_, hlengths, hhex, by simp [Text.intercalate_cutAt]⟩
  · rintro ⟨groups, hlengths, hhex, htext⟩
    have hsome : groups ≠ [] := by
      rintro rfl
      cases hlengths
    have hhyphen : ∀ group ∈ groups, '-' ∉ group := by
      intro group hgroup hmem
      exact absurd (hhex group hgroup _ hmem) (by unfold IsHexDigit; decide)
    rw [htext, Text.cutAt_intercalate hsome hhyphen]
    exact ⟨hlengths, hhex⟩

/-- A line break behind the last group is one character too many. -/
example : isTargetId "2a2f1c3e-61d9-4f0d-9d8a-5b8b9e2c6a01\n" = false := by decide

/-! ## What is wrong with a request -/

namespace Request

/-- The include tags of a request without the empty ones. -/
def includedTags (r : Request) : List String := (r.includeTags.getD []).filter fun tag => tag ≠ ""

/-- The exclude tags of a request without the empty ones. -/
def excludedTags (r : Request) : List String := (r.excludeTags.getD []).filter fun tag => tag ≠ ""

/-- What is wrong with a request. Whether a name is in use counts only for names of a permitted
    length. -/
def Violates (r : Request) (existing : List String) : Violation → Prop
  | .invalidTarget => ¬ IsTargetText r.targetId
  | .nameTooShort => ∃ n ∈ r.contractName, n.length < 2
  | .nameTooLong => ∃ n ∈ r.contractName, 64 < n.length
  | .nameTaken => ∃ n ∈ r.contractName, 2 ≤ n.length ∧ n.length ≤ 64 ∧ n ∈ existing
  | .noTags => r.includedTags = [] ∧ r.excludedTags = []
  | .tagsIntersect => ∃ tag ∈ r.includedTags, tag ∈ r.excludedTags

/-- A request with nothing wrong. -/
structure Valid (r : Request) (existing : List String) : Prop where
  target : IsTargetText r.targetId
  name : ∀ n ∈ r.contractName, 2 ≤ n.length ∧ n.length ≤ 64 ∧ n ∉ existing
  chosen : ¬ (r.includedTags = [] ∧ r.excludedTags = [])
  disjoint : ∀ tag ∈ r.includedTags, tag ∉ r.excludedTags

variable {r : Request} {existing : List String} {x : Violation}

theorem mem_included_rule {tag : String} : tag ∈ r.rule.included ↔ tag ∈ r.includedTags := by
  rw [includedTags, List.mem_filter, decide_eq_true_eq, and_comm]
  exact mem_chosenTags

theorem mem_excluded_rule {tag : String} : tag ∈ r.rule.excluded ↔ tag ∈ r.excludedTags := by
  rw [excludedTags, List.mem_filter, decide_eq_true_eq, and_comm]
  exact mem_chosenTags

/-! ### Each check -/

/-- The check of the target reports nothing, or its one violation. -/
theorem checkTarget_cases (r : Request) (existing : List String) :
    (checkTarget (some r.targetId) = [] ∧ ¬ r.Violates existing .invalidTarget) ∨
    (checkTarget (some r.targetId) = [.invalidTarget] ∧ r.Violates existing .invalidTarget) := by
  rw [Violates, ← isTargetId_iff, checkTarget, Option.getD_some]
  cases isTargetId r.targetId
  · exact Or.inr ⟨rfl, Bool.false_ne_true⟩
  · exact Or.inl ⟨rfl, fun h => h rfl⟩

/-- The check of the name reports nothing, or one of three violations that exclude each other. -/
theorem checkName_cases (r : Request) (existing : List String) :
    (checkName r.contractName existing = [] ∧ ¬ r.Violates existing .nameTooShort ∧
      ¬ r.Violates existing .nameTooLong ∧ ¬ r.Violates existing .nameTaken) ∨
    (checkName r.contractName existing = [.nameTooShort] ∧ r.Violates existing .nameTooShort ∧
      ¬ r.Violates existing .nameTooLong ∧ ¬ r.Violates existing .nameTaken) ∨
    (checkName r.contractName existing = [.nameTooLong] ∧ ¬ r.Violates existing .nameTooShort ∧
      r.Violates existing .nameTooLong ∧ ¬ r.Violates existing .nameTaken) ∨
    (checkName r.contractName existing = [.nameTaken] ∧ ¬ r.Violates existing .nameTooShort ∧
      ¬ r.Violates existing .nameTooLong ∧ r.Violates existing .nameTaken) := by
  cases hname : r.contractName with
  | none =>
    have hnone : ∀ p : String → Prop, ¬ ∃ n ∈ r.contractName, p n := by simp [hname]
    exact Or.inl ⟨rfl, hnone _, hnone _, hnone _⟩
  | some n =>
    have hread : ∀ p : String → Prop, (∃ m ∈ r.contractName, p m) ↔ p n := by simp [hname]
    simp only [Violates, hread, checkName, minNameLength, maxNameLength, List.contains_iff_mem]
    by_cases hshort : n.length < 2
    · rw [if_pos hshort]
      exact Or.inr (Or.inl ⟨rfl, hshort, by omega, by omega⟩)
    · by_cases hlong : 64 < n.length
      · rw [if_neg hshort, if_pos hlong]
        exact Or.inr (Or.inr (Or.inl ⟨rfl, hshort, hlong, by omega⟩))
      · by_cases htaken : n ∈ existing
        · rw [if_neg hshort, if_neg hlong, if_pos htaken]
          exact Or.inr (Or.inr (Or.inr ⟨rfl, hshort, hlong, by omega, by omega, htaken⟩))
        · rw [if_neg hshort, if_neg hlong, if_neg htaken]
          exact Or.inl ⟨rfl, hshort, hlong, fun h => htaken h.2.2⟩

/-- The check of the rule reports nothing, or one of two violations that exclude each other. -/
theorem checkRule_cases (r : Request) (existing : List String) :
    (r.rule.check = [] ∧ ¬ r.Violates existing .noTags ∧ ¬ r.Violates existing .tagsIntersect) ∨
    (r.rule.check = [.noTags] ∧ r.Violates existing .noTags ∧
      ¬ r.Violates existing .tagsIntersect) ∨
    (r.rule.check = [.tagsIntersect] ∧ ¬ r.Violates existing .noTags ∧
      r.Violates existing .tagsIntersect) := by
  have hnone : (r.rule.included.isEmpty && r.rule.excluded.isEmpty) = true ↔
      r.Violates existing .noTags := by
    simp only [Violates, Bool.and_eq_true, NameSet.isEmpty, List.isEmpty_iff,
      List.eq_nil_iff_forall_not_mem, ← NameSet.mem_def, mem_included_rule, mem_excluded_rule]
  have hmeets : r.rule.included.meets r.rule.excluded = true ↔
      r.Violates existing .tagsIntersect := by
    simp only [Violates, NameSet.meets_iff, mem_included_rule, mem_excluded_rule]
  rw [Rule.check]
  by_cases h : r.Violates existing .noTags
  · -- No tags share no member.
    have hdisjoint : ¬ r.Violates existing .tagsIntersect := by
      rintro ⟨tag, hincluded, -⟩
      rw [h.1] at hincluded
      exact List.not_mem_nil hincluded
    rw [if_pos (hnone.2 h)]
    exact Or.inr (Or.inl ⟨rfl, h, hdisjoint⟩)
  · rw [if_neg (mt hnone.1 h)]
    by_cases hshared : r.Violates existing .tagsIntersect
    · rw [if_pos (hmeets.2 hshared)]
      exact Or.inr (Or.inr ⟨rfl, h, hshared⟩)
    · rw [if_neg (mt hmeets.1 hshared)]
      exact Or.inl ⟨rfl, h, hshared⟩

/-- The check of the target reports what is wrong with the target. -/
theorem mem_checkTarget_iff (existing : List String) : x ∈ checkTarget (some r.targetId) ↔
    x.field = .targetId ∧ r.Violates existing x := by
  rcases r.checkTarget_cases existing with ⟨h, hform⟩ | ⟨h, hform⟩ <;> rw [h] <;>
    cases x <;> simp [Violation.field, hform]

/-- The check of the name reports what is wrong with the name. -/
theorem mem_checkName_iff : x ∈ checkName r.contractName existing ↔
    x.field = .contractName ∧ r.Violates existing x := by
  rcases r.checkName_cases existing with ⟨h, hshort, hlong, htaken⟩ | ⟨h, hshort, hlong, htaken⟩ |
    ⟨h, hshort, hlong, htaken⟩ | ⟨h, hshort, hlong, htaken⟩ <;> rw [h] <;>
    cases x <;> simp [Violation.field, hshort, hlong, htaken]

/-- The check of the rule reports what is wrong with the tags. -/
theorem mem_checkRule_iff (existing : List String) : x ∈ r.rule.check ↔
    x.field = .includeTags ∧ r.Violates existing x := by
  rcases r.checkRule_cases existing with ⟨h, hnone, hshared⟩ | ⟨h, hnone, hshared⟩ |
    ⟨h, hnone, hshared⟩ <;> rw [h] <;> cases x <;> simp [Violation.field, hnone, hshared]

/-! ### All checks -/

/-- A request is reported for what is wrong with it. -/
theorem mem_check_iff : x ∈ r.check existing ↔ r.Violates existing x := by
  rw [check, List.mem_append, List.mem_append, mem_checkTarget_iff existing,
    mem_checkName_iff, mem_checkRule_iff existing]
  cases x <;> simp [Violation.field]

/-- No field is reported twice, and the fields come in order. -/
theorem fields_check_sublist (r : Request) (existing : List String) :
    ((r.check existing).map Violation.field).Sublist [.targetId, .contractName, .includeTags] := by
  have htarget : ((checkTarget (some r.targetId)).map Violation.field).Sublist [.targetId] := by
    rcases r.checkTarget_cases existing with ⟨h, -⟩ | ⟨h, -⟩ <;> simp [h, Violation.field]
  have hname : ((checkName r.contractName existing).map Violation.field).Sublist
      [.contractName] := by
    rcases r.checkName_cases existing with ⟨h, -⟩ | ⟨h, -⟩ | ⟨h, -⟩ | ⟨h, -⟩ <;>
      simp [h, Violation.field]
  have hrule : (r.rule.check.map Violation.field).Sublist [.includeTags] := by
    rcases r.checkRule_cases existing with ⟨h, -⟩ | ⟨h, -⟩ | ⟨h, -⟩ <;> simp [h, Violation.field]
  rw [check, List.map_append, List.map_append]
  exact (htarget.append hname).append hrule

/-- A request is valid if nothing is wrong with it. -/
theorem valid_iff : r.Valid existing ↔ ∀ x, ¬ r.Violates existing x := by
  constructor
  · intro h x
    cases x with
    | invalidTarget => exact fun hform => hform h.target
    | nameTooShort =>
      rintro ⟨n, hn, hshort⟩
      have hlength := (h.name n hn).1
      omega
    | nameTooLong =>
      rintro ⟨n, hn, hlong⟩
      have hlength := (h.name n hn).2.1
      omega
    | nameTaken =>
      rintro ⟨n, hn, -, -, htaken⟩
      exact (h.name n hn).2.2 htaken
    | noTags => exact h.chosen
    | tagsIntersect =>
      rintro ⟨tag, hincluded, hexcluded⟩
      exact h.disjoint tag hincluded hexcluded
  · intro h
    refine ⟨Classical.not_not.1 (h .invalidTarget), fun n hn => ?_, h .noTags, ?_⟩
    · have hshort : ¬ n.length < 2 := fun hlength => h .nameTooShort ⟨n, hn, hlength⟩
      have hlong : ¬ 64 < n.length := fun hlength => h .nameTooLong ⟨n, hn, hlength⟩
      refine ⟨by omega, by omega, fun htaken => ?_⟩
      exact h .nameTaken ⟨n, hn, by omega, by omega, htaken⟩
    · exact fun tag hincluded hexcluded => h .tagsIntersect ⟨tag, hincluded, hexcluded⟩

/-- Nothing is reported of a valid request. -/
theorem check_eq_nil_iff_valid : r.check existing = [] ↔ r.Valid existing := by
  simp only [List.eq_nil_iff_forall_not_mem, mem_check_iff, valid_iff]

end Request

/-! ## Messages by fields -/

/-- A violation tells its field its message, if the field has not been told one. -/
theorem join_get?_noteMessage (details : OrderedMap RequestField (Option String)) (x : Violation)
    (field : RequestField) : ((noteMessage details x).get? field).join =
      (details.get? field).join.or (if x.field = field then some x.message else none) := by
  by_cases hfield : x.field = field
  · subst hfield
    unfold noteMessage
    split <;> simp_all [OrderedMap.get?_insert]
  · unfold noteMessage
    split <;> simp_all [OrderedMap.get?_insert, Ne.symm hfield]

/-- Fields that are there stay, and no other comes. -/
theorem keys_noteMessage {details : OrderedMap RequestField (Option String)} {x : Violation}
    (h : x.field ∈ details.keys) : (noteMessage details x).keys = details.keys := by
  unfold noteMessage
  split
  · rfl
  · rw [OrderedMap.keys_insert, if_pos h]
  · rw [OrderedMap.keys_insert, if_pos h]

namespace Verdict

theorem messageFor_cons (x : Violation) (v : Verdict) (field : RequestField) :
    messageFor (x :: v) field
      = (if x.field = field then some x.message else none).or (messageFor v field) := by
  by_cases hfield : x.field = field <;> simp [messageFor, hfield]

/-- A run over violations tells each field the first message for it. -/
theorem join_get?_foldl_noteMessage (v : Verdict)
    (details : OrderedMap RequestField (Option String)) (field : RequestField) :
    ((v.foldl noteMessage details).get? field).join
      = (details.get? field).join.or (v.messageFor field) := by
  induction v generalizing details with
  | nil => simp [messageFor]
  | cons x v ih =>
    rw [List.foldl_cons, ih, join_get?_noteMessage, Option.or_assoc, messageFor_cons]

theorem keys_foldl_noteMessage (v : Verdict) {details : OrderedMap RequestField (Option String)}
    (h : details.keys = RequestField.all) :
    (v.foldl noteMessage details).keys = RequestField.all := by
  induction v generalizing details with
  | nil => exact h
  | cons x v ih =>
    have hkeys : (noteMessage details x).keys = details.keys :=
      keys_noteMessage (h ▸ RequestField.mem_all x.field)
    rw [List.foldl_cons]
    exact ih (hkeys.trans h)

/-- All fields are told about, in order. -/
theorem keys_details (v : Verdict) : v.details.keys = RequestField.all :=
  keys_foldl_noteMessage v (by decide)

/-- Each field is told the message of its first violation. -/
theorem get?_details (v : Verdict) (field : RequestField) :
    v.details.get? field = some (v.messageFor field) := by
  have hkey : field ∈ v.details.keys := by
    rw [keys_details]
    exact RequestField.mem_all field
  obtain ⟨message, hmessage⟩ := (OrderedMap.mem_keys_iff _ _).1 hkey
  have hjoin : (v.details.get? field).join = v.messageFor field := by
    rw [details, join_get?_foldl_noteMessage]
    -- No field has been told anything at the start.
    cases field <;> exact Option.none_or
  rw [hmessage] at hjoin ⊢
  exact congrArg some hjoin

/-- Where no field is reported twice, each is told the message of its violation. -/
theorem messageFor_eq_some_iff {v : Verdict} (h : (v.map Violation.field).Nodup)
    {field : RequestField} {message : String} : v.messageFor field = some message ↔
      ∃ x, x ∈ v ∧ x.field = field ∧ x.message = message := by
  rw [messageFor, Option.map_eq_some_iff]
  constructor
  · rintro ⟨x, hfind, hmessage⟩
    have htest := List.find?_some hfind
    exact ⟨x, List.mem_of_find?_eq_some hfind, of_decide_eq_true htest, hmessage⟩
  · rintro ⟨x, hx, hfield, hmessage⟩
    cases hfind : v.find? fun violation => violation.field = field with
    | none => exact absurd (decide_eq_true hfield) (List.find?_eq_none.1 hfind x hx)
    | some y =>
      -- The first violation of the field is the only one.
      have htest := List.find?_some hfind
      have hy : y.field = field := of_decide_eq_true htest
      have heq : y = x := List.inj_on_of_nodup_map h (List.mem_of_find?_eq_some hfind) hx
        (hy.trans hfield.symm)
      exact ⟨y, rfl, heq ▸ hmessage⟩

end Verdict

/-! ## Verdicts on requests -/

/-- What a verdict has to report, given what is wrong. -/
structure Verdict.Reports (v : Verdict) (wrong : Violation → Prop) : Prop where
  /-- What is wrong is reported, and nothing else. -/
  reported : ∀ x, x ∈ v ↔ wrong x
  /-- The target, the name and the tags are reported in this order and once at most. -/
  ordered : (v.map Violation.field).Sublist [.targetId, .contractName, .includeTags]
  /-- The details are about all fields. -/
  fields : v.details.keys = RequestField.all
  /-- A field with something wrong is told what it is. -/
  told : ∀ field message, v.details.get? field = some (some message) ↔
    ∃ x, wrong x ∧ x.field = field ∧ x.message = message
  /-- Every other field is told nothing. -/
  untold : ∀ field, v.details.get? field = some none ↔ ∀ x, wrong x → x.field ≠ field

namespace Request

variable {r : Request} {existing : List String}

/-- What a field is told about a request. -/
theorem messageFor_check_iff {field : RequestField} {message : String} :
    (r.check existing).messageFor field = some message ↔
      ∃ x, r.Violates existing x ∧ x.field = field ∧ x.message = message := by
  have honce : ((r.check existing).map Violation.field).Nodup :=
    (fields_check_sublist r existing).nodup (by decide)
  simp only [Verdict.messageFor_eq_some_iff honce, mem_check_iff]

/-- The verdict on a request reports what is wrong with it. -/
theorem reports_check (r : Request) (existing : List String) :
    (r.check existing).Reports (r.Violates existing) where
  reported _ := mem_check_iff
  ordered := fields_check_sublist r existing
  fields := Verdict.keys_details _
  told field message := by
    rw [Verdict.get?_details, Option.some.injEq]
    exact messageFor_check_iff
  untold field := by
    rw [Verdict.get?_details, Option.some.injEq, Option.eq_none_iff_forall_ne_some]
    constructor
    · intro h x hx hfield
      exact h x.message (messageFor_check_iff.2 ⟨x, hx, hfield, rfl⟩)
    · intro h message hmessage
      obtain ⟨x, hx, hfield, -⟩ := messageFor_check_iff.1 hmessage
      exact h x hx hfield

end Request

/-! ## Answers -/

/-- A caller receives a contract or a rejection, and never both. -/
theorem Creation.isSome_created (c : Creation) :
    c.response.created.isSome = !c.response.rejection.isSome := by
  cases hsucceeded : c.succeeded with
  | true =>
    have hcontract : c.contract.isSome = true := (Bool.and_eq_true_iff.1 hsucceeded).1
    simp [response, hsucceeded, hcontract]
  | false => simp [response, hsucceeded]

/-- What the answer to a request has to be, given the contract that is asked for. -/
structure Request.AnsweredExactly (r : Request) (existing : List String) (asked : Contract)
    (creation : Creation) : Prop where
  /-- The request succeeds exactly if it is valid. -/
  succeeded : creation.succeeded = true ↔ r.Valid existing
  /-- The contract is made then, and no contract is made otherwise. -/
  contract : ∀ c, creation.contract = some c ↔ r.Valid existing ∧ c = asked
  /-- The verdict reports what is wrong with the request. -/
  verdict : creation.verdict.Reports (r.Violates existing)
  /-- The caller receives the contract if the request is valid. -/
  created : ∀ c, creation.response.created = some c ↔ r.Valid existing ∧ c = asked.summary
  /-- The caller receives the details if it is not. -/
  rejection : ∀ e, creation.response.rejection = some e ↔
    ¬ r.Valid existing ∧ e = ⟨"Something went wrong.", creation.verdict.details⟩
  /-- The caller receives one of both. -/
  either : creation.response.created.isSome = !creation.response.rejection.isSome

namespace Request

variable {r : Request} {existing : List String} {asked : Contract}

theorem Valid.answeredExactly (h : r.Valid existing) :
    r.AnsweredExactly existing asked ⟨some asked, r.check existing⟩ := by
  have hnone : (r.check existing).passed = true := List.isEmpty_iff.2 (check_eq_nil_iff_valid.2 h)
  exact {
    succeeded := by simp [Creation.succeeded, hnone, h]
    contract := by simp [h, eq_comm]
    verdict := reports_check r existing
    created := by simp [Creation.response, Creation.succeeded, hnone, h, eq_comm]
    rejection := by simp [Creation.response, Creation.succeeded, hnone, h]
    either := Creation.isSome_created _ }

theorem answeredExactly_of_not_valid (h : ¬ r.Valid existing) :
    r.AnsweredExactly existing asked ⟨none, r.check existing⟩ where
  succeeded := by simp [Creation.succeeded, h]
  contract := by simp [h]
  verdict := reports_check r existing
  created := by simp [Creation.response, Creation.succeeded, h]
  rejection := by simp [Creation.response, Creation.succeeded, rejectionMessage, h, eq_comm]
  either := Creation.isSome_created _

/-- Every request is answered exactly: it is accepted if it is valid, and otherwise everything that
    is wrong with it is reported, once for each field. -/
theorem answered_exactly (r : Request) (existing : List String) (id createdAt : String) :
    r.AnsweredExactly existing ⟨id, r.targetId, r.contractName, r.rule, createdAt⟩
      (.ofAnswer (r.create existing id createdAt)) := by
  cases hcheck : r.check existing with
  | nil =>
    have hvalid := check_eq_nil_iff_valid.1 hcheck
    have hanswer : r.create existing id createdAt
        = .ok ⟨id, r.targetId, r.contractName, r.rule, createdAt⟩ := by
      rw [create, hcheck]
    rw [hanswer, Creation.ofAnswer, ← hcheck]
    exact hvalid.answeredExactly
  | cons x v =>
    have hinvalid : ¬ r.Valid existing := by
      rw [← check_eq_nil_iff_valid, hcheck]
      exact List.cons_ne_nil x v
    have hanswer : r.create existing id createdAt = .error (r.check existing) := by
      rw [create, hcheck]
    rw [hanswer, Creation.ofAnswer]
    exact answeredExactly_of_not_valid hinvalid

/-- A target, a name and tags of which none is right are reported together. -/
example : (Request.mk "nope" (some "x") (some [""]) none true).check ["x"]
    = [.invalidTarget, .nameTooShort, .noTags] := by
  decide

end Request

end SchemaView
