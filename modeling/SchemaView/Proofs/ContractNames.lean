import SchemaView.Proofs.CompileCorrect
import SchemaView.Request

/-!
# Names of contracts over a run of requests

Requests are answered one after the other, and the name of every new contract is in use from then
on. However requests are accepted and rejected on the way, the names of the new contracts are of a
permitted length and no name is used twice. What was checked of a rule when its contract was made
holds whenever the rule is made from the same choices again.

## Key results

- `create_eq_ok_iff`, `check_eq_nil_iff`: when a request is accepted
- `freshNames_create`: what one answer does to the names in use
- `getElem?_createAll`: each request is answered for the names that are in use before it
- `freshNames_createAll`: what a whole run does to the names in use
- `createAll_keeps_names_unique`: names and rules over a run
-/

namespace SchemaView

/-! ## When a request is accepted -/

theorem checkName_eq_nil_iff {name : Option String} {existing : List String} :
    checkName name existing = [] ↔
      ∀ n ∈ name, 2 ≤ n.length ∧ n.length ≤ 64 ∧ n ∉ existing := by
  cases name with
  | none => simp [checkName]
  | some n =>
    -- The three tests exclude each other, so passing all of them is to be shown.
    simp only [checkName, minNameLength, maxNameLength, Option.mem_some_iff, forall_eq',
      List.contains_iff_mem]
    split
    · simp only [reduceCtorEq, false_iff]
      omega
    · split
      · simp only [reduceCtorEq, false_iff]
        omega
      · split
        · rename_i htaken
          simp [htaken]
        · rename_i hlong hshort hnew
          simp only [true_iff]
          exact ⟨by omega, by omega, hnew⟩

namespace Request

variable {r : Request} {existing : List String} {id createdAt : String} {c : Contract}

/-- Nothing is wrong with a request if nothing is wrong with its target, its name and its rule. -/
theorem check_eq_nil_iff : r.check existing = [] ↔
    isTargetId r.targetId = true ∧
      (∀ n ∈ r.contractName, 2 ≤ n.length ∧ n.length ≤ 64 ∧ n ∉ existing) ∧
      r.rule.check = [] := by
  have htarget : checkTarget (some r.targetId) = [] ↔ isTargetId r.targetId = true := by
    simp [checkTarget]
  rw [check, List.append_eq_nil_iff, List.append_eq_nil_iff, htarget, checkName_eq_nil_iff,
    and_assoc]

/-- A request is accepted if nothing is wrong with it, and the contract has what was asked for. -/
theorem create_eq_ok_iff : r.create existing id createdAt = .ok c ↔
    r.check existing = [] ∧ c = ⟨id, r.targetId, r.contractName, r.rule, createdAt⟩ := by
  cases hcheck : r.check existing with
  | nil => simp [create, hcheck, eq_comm]
  | cons violation violations => simp [create, hcheck]

/-- What is wrong with choices of tags does not depend on the rest of a rule. -/
theorem check_rule_eq (r : Request) (removeUnreachable : Bool) :
    (Rule.ofChoices r.includeTags r.excludeTags removeUnreachable).check = r.rule.check := rfl

end Request

/-! ## One answer -/

/-- The name that an answer puts into use, if any. -/
def newNames : Except Verdict Contract → List String
  | .ok contract => contract.name.toList
  | .error _ => []

/-- The names of the contracts among answers. -/
def contractNames (answers : List (Except Verdict Contract)) : List String :=
  answers.flatMap newNames

theorem namesAfter_eq (existing : List String) (answer : Except Verdict Contract) :
    namesAfter existing answer = existing ++ newNames answer := by
  cases answer <;> simp [namesAfter, newNames]

/-- Names that may come into use beside existing ones: all different, all new, and of a permitted
    length. -/
structure FreshNames (existing names : List String) : Prop where
  nodup : names.Nodup
  new : ∀ n ∈ names, n ∉ existing
  length : ∀ n ∈ names, 2 ≤ n.length ∧ n.length ≤ 64

theorem FreshNames.nil (existing : List String) : FreshNames existing [] :=
  ⟨List.nodup_nil, by simp, by simp⟩

/-- Names that are fresh when others have come into use are fresh together with these. -/
theorem FreshNames.append {existing names later : List String} (h : FreshNames existing names)
    (hlater : FreshNames (existing ++ names) later) : FreshNames existing (names ++ later) where
  nodup := by
    refine List.nodup_append.2 ⟨h.nodup, hlater.nodup, fun n hn m hm heq => ?_⟩
    exact hlater.new m hm (List.mem_append_right _ (heq ▸ hn))
  new n hn := by
    rcases List.mem_append.1 hn with hn | hn
    · exact h.new n hn
    · exact fun hold => hlater.new n hn (List.mem_append_left _ hold)
  length n hn := by
    rcases List.mem_append.1 hn with hn | hn
    · exact h.length n hn
    · exact hlater.length n hn

/-- An answer puts nothing but a fresh name into use. -/
theorem freshNames_create (r : Request) (existing : List String) (id createdAt : String) :
    FreshNames existing (newNames (r.create existing id createdAt)) := by
  cases hanswer : r.create existing id createdAt with
  | error verdict => exact .nil existing
  | ok c =>
    obtain ⟨hcheck, rfl⟩ := Request.create_eq_ok_iff.1 hanswer
    obtain ⟨-, hname, -⟩ := Request.check_eq_nil_iff.1 hcheck
    rw [newNames]
    cases hasked : r.contractName with
    | none => exact .nil existing
    | some n =>
      obtain ⟨hlong, hshort, hnew⟩ := hname n hasked
      exact ⟨by simp, by simpa using hnew, by simpa using ⟨hlong, hshort⟩⟩

/-! ## A run -/

section Run

variable (makeId : Nat → String) (createdAt : String)

/-- Every request is answered for the existing names and those of the contracts made before it. -/
theorem getElem?_createAll (number : Nat) (existing : List String) (requests : List Request)
    (i : Nat) : (createAll makeId createdAt number existing requests)[i]?
      = requests[i]?.map fun r => r.create
          (existing ++ contractNames ((createAll makeId createdAt number existing requests).take i))
          (makeId (number + i)) createdAt := by
  -- The induction is on the requests; a position behind the first one is one of the rest.
  induction requests generalizing number existing i with
  | nil => simp [createAll]
  | cons r requests ih =>
    cases i with
    | zero => simp [createAll, contractNames]
    | succ i =>
      have hnumber : number + 1 + i = number + (i + 1) := by omega
      simp only [createAll, List.getElem?_cons_succ, List.take_succ_cons, ih, namesAfter_eq,
        contractNames, List.flatMap_cons, List.append_assoc, hnumber]

/-- A run puts nothing but fresh names into use. -/
theorem freshNames_createAll (number : Nat) (existing : List String) (requests : List Request) :
    FreshNames existing (contractNames (createAll makeId createdAt number existing requests)) := by
  induction requests generalizing number existing with
  | nil => exact .nil existing
  | cons r requests ih =>
    rw [createAll, contractNames, List.flatMap_cons]
    have hrest := ih (number + 1)
      (namesAfter existing (r.create existing (makeId number) createdAt))
    rw [namesAfter_eq] at hrest ⊢
    exact (freshNames_create r existing (makeId number) createdAt).append hrest

/-- Over a run of requests, each is answered for the names in use before it. A rejected one leaves
    these as they are. The names of the new contracts are all different, differ from those that
    existed, and have from 2 to 64 characters. The rule of a new contract is that of its request,
    and made again from the same choices of tags it is never rejected by compiling. -/
theorem createAll_keeps_names_unique (number : Nat) (existing : List String)
    (requests : List Request) :
    let answers := createAll makeId createdAt number existing requests
    let namesBefore := fun (i : Nat) => existing ++ contractNames (answers.take i)
    (∀ i : Nat, answers[i]? = requests[i]?.map fun r =>
      r.create (namesBefore i) (makeId (number + i)) createdAt) ∧
    (∀ (i : Nat) verdict, answers[i]? = some (.error verdict) → namesBefore (i + 1) = namesBefore i) ∧
    (contractNames answers).Nodup ∧
    (∀ n ∈ contractNames answers, n ∉ existing ∧ 2 ≤ n.length ∧ n.length ≤ 64) ∧
    ∀ (i : Nat) r c, requests[i]? = some r → answers[i]? = some (.ok c) →
      c.name = r.contractName ∧ c.rule = r.rule ∧ c.rule.check = [] ∧
      ∀ removeUnreachable (d : Document) options verdict,
        options.rule = .ofChoices r.includeTags r.excludeTags removeUnreachable →
        d.compile options ≠ .ok (.rejected verdict) := by
  intro answers namesBefore
  have hanswers := getElem?_createAll makeId createdAt number existing requests
  have hfresh := freshNames_createAll makeId createdAt number existing requests
  refine ⟨hanswers, fun i verdict hrejected => ?_, hfresh.nodup,
    fun n hn => ⟨hfresh.new n hn, hfresh.length n hn⟩, fun i r c hr hc => ?_⟩
  · -- The answer in between has no name.
    simp [namesBefore, contractNames, List.take_add_one, hrejected, newNames]
  · rw [hanswers i, hr, Option.map_some, Option.some.injEq] at hc
    obtain ⟨hcheck, rfl⟩ := Request.create_eq_ok_iff.1 hc
    obtain ⟨-, -, hrule⟩ := Request.check_eq_nil_iff.1 hcheck
    refine ⟨rfl, rfl, hrule, fun removeUnreachable d options verdict hoptions hrejected => ?_⟩
    obtain ⟨hwrong, -⟩ := Document.compile_eq_rejected_iff.1 hrejected
    rw [hoptions, Request.check_rule_eq] at hwrong
    exact hwrong hrule

end Run

/-! ## Requests of a partner -/

/-- A request for a contract without some tags. -/
def partnerRequest (name : Option String) (excludeTags : List String) : Request :=
  ⟨"2a2f1c3e-61d9-4f0d-9d8a-5b8b9e2c6a01", name, none, some excludeTags, true⟩

/-- A name is asked for twice, another one is in use from the start, and one contract has none. -/
def partnerRequests : List Request :=
  [partnerRequest (some "partner") ["internal"], partnerRequest (some "partner") ["beta"],
   partnerRequest none ["beta"], partnerRequest (some "public") ["beta"],
   partnerRequest (some "tester") ["beta"]]

/-- The second request for a name is rejected, as is that for a name in use. The names of the others
    are different, and the rule of the first contract may be used for compiling. -/
theorem partnerRequests_answered :
    let answers := createAll toString "2024-01-01" 1 ["public"] partnerRequests
    contractNames answers = ["partner", "tester"] ∧ (contractNames answers).Nodup ∧
    (∀ n ∈ contractNames answers, n ∉ ["public"] ∧ 2 ≤ n.length ∧ n.length ≤ 64) ∧
    answers[1]? = some (.error [.nameTaken]) ∧
    contractNames (answers.take 2) = contractNames (answers.take 1) ∧
    ∀ (d : Document) options verdict, options.rule = .ofChoices none (some ["internal"]) false →
      d.compile options ≠ .ok (.rejected verdict) := by
  intro answers
  obtain ⟨-, hrejected, hnodup, hnames, hrules⟩ :=
    createAll_keeps_names_unique toString "2024-01-01" 1 ["public"] partnerRequests
  have hsecond : answers[1]? = some (.error [.nameTaken]) := rfl
  have hkept := List.append_cancel_left (hrejected 1 _ hsecond)
  obtain ⟨c, hfirst⟩ : ∃ c, answers[0]? = some (.ok c) := ⟨_, rfl⟩
  obtain ⟨-, -, -, hcompile⟩ := hrules 0 _ c rfl hfirst
  exact ⟨rfl, hnodup, hnames, hsecond, hkept, fun d => hcompile false d⟩

end SchemaView
