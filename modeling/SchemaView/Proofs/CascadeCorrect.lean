import SchemaView.Contract.Cascade
import SchemaView.Proofs.MarkedReach

/-!
# A cascade takes at most one pass

`Document.cascade` repeats passes until nothing is left to mark. What a pass marks is not reached,
so the next pass finds the same types reached and nothing to do. A cascade is therefore either the
document itself or the document after one pass, `Document.afterPass`, and never fails for want of
passes when one is allowed.

## Key results

- `cascade_eq_ok_iff`: a cascade answers exactly if there is an answer to what is reached
- `cascade_settles`: what a cascade does under any bound, and that it does nothing a second time
- `reachable_afterPass`: a pass changes nothing about what is reached
- `pendingTypes_afterPass`: a pass leaves nothing to mark
- `afterPass_document`: a pass marks by a test that only types pass that are to be hidden
-/

namespace SchemaView

open Sdl

namespace Document

variable {d : Document} {marker : Name}

/-! ## What is to be marked -/

theorem mem_pendingTypes {visible : NameSet} {n : Name} : n ∈ d.pendingTypes marker visible ↔
    ∃ t, d.definedTypes.get? n = some t ∧ n ∉ visible ∧ carries marker t.directives = false := by
  simp only [pendingTypes, List.mem_map, List.mem_filter, OrderedMap.get?_eq_some_iff,
    Bool.and_eq_true, Bool.not_eq_true', decide_eq_false_iff_not]
  constructor
  · rintro ⟨⟨m, t⟩, ⟨he, hvisible, hcarries⟩, rfl⟩
    exact ⟨t, he, hvisible, hcarries⟩
  · rintro ⟨t, he, hvisible, hcarries⟩
    exact ⟨(n, t), ⟨he, hvisible, hcarries⟩, rfl⟩

/-- In a marked document the types are left to mark that were to be marked and are not yet. -/
theorem mem_pendingTypes_mark {hit : Coordinate → Bool} {visible : NameSet} {n : Name} :
    n ∈ (d.mark marker hit).pendingTypes marker visible ↔
      n ∈ d.pendingTypes marker visible ∧ hit (.type n) = false := by
  rw [mem_pendingTypes, mem_pendingTypes, get?_definedTypes_mark]
  constructor
  · rintro ⟨u, hu, hvisible, hcarries⟩
    obtain ⟨t, ht, rfl⟩ := Option.map_eq_some_iff.1 hu
    rw [markDeclaration_directives, carries_markIf, Bool.or_eq_false_iff,
      name_of_get?_definedTypes ht] at hcarries
    exact ⟨⟨t, ht, hvisible, hcarries.1⟩, hcarries.2⟩
  · rintro ⟨⟨t, ht, hvisible, hcarries⟩, hmiss⟩
    refine ⟨markDeclaration marker hit t, by rw [ht, Option.map_some], hvisible, ?_⟩
    rw [markDeclaration_directives, carries_markIf, name_of_get?_definedTypes ht, hcarries, hmiss]
    rfl

/-- What is to be marked are defined types, in the order of the document. -/
theorem pendingTypes_sublist (d : Document) (marker : Name) (visible : NameSet) :
    (d.pendingTypes marker visible).Sublist d.definedTypes.keys :=
  List.filter_sublist.map Prod.fst

/-- No type is to be marked twice. -/
theorem nodup_pendingTypes (d : Document) (marker : Name) (visible : NameSet) :
    (d.pendingTypes marker visible).Nodup :=
  d.definedTypes.nodup_keys.sublist (d.pendingTypes_sublist marker visible)

/-! ## One pass -/

/-- The test by which a pass marks: types that are not visible, or none at all if no definition of
    such a type lacks the marker. -/
def passTest (d : Document) (marker : Name) (visible : NameSet) (c : Coordinate) : Bool :=
  !(d.pendingTypes marker visible).isEmpty && (c.isType && !decide (c.typeName ∈ visible))

/-- What a cascade has done after one pass, or at once if there is nothing to mark. -/
def afterPass (d : Document) (marker : Name) (visible : NameSet) : CascadeResult :=
  if (d.pendingTypes marker visible).isEmpty then ⟨d, [], 0⟩
  else ⟨d.markTypes marker visible, d.pendingTypes marker visible, 1⟩

variable {visible : NameSet}

theorem afterPass_marked :
    (d.afterPass marker visible).marked = d.pendingTypes marker visible := by
  unfold afterPass
  split
  · rename_i h
    exact (List.isEmpty_iff.1 h).symm
  · rfl

/-- Where nothing is to be marked, a pass changes nothing. -/
theorem afterPass_of_settled (h : d.pendingTypes marker visible = []) :
    d.afterPass marker visible = ⟨d, [], 0⟩ := by
  rw [afterPass, h]
  rfl

/-- Where something is to be marked, a pass marks it. -/
theorem afterPass_of_pending (h : d.pendingTypes marker visible ≠ []) :
    d.afterPass marker visible
      = ⟨d.markTypes marker visible, d.pendingTypes marker visible, 1⟩ := by
  have hempty : (d.pendingTypes marker visible).isEmpty = false := by
    rw [Bool.eq_false_iff, Ne, List.isEmpty_iff]
    exact h
  rw [afterPass, hempty]
  rfl

/-- A pass is a marking. -/
theorem afterPass_document :
    (d.afterPass marker visible).document = d.mark marker (d.passTest marker visible) := by
  unfold afterPass
  split
  · rename_i h
    have hnone : d.passTest marker visible = fun _ => false := by
      funext c
      simp [passTest, h]
    rw [hnone, mark_none]
  · rename_i h
    have htest : d.passTest marker visible
        = fun c => c.isType && !decide (c.typeName ∈ visible) := by
      funext c
      simp [passTest, h]
    rw [htest]
    rfl

theorem passTest_typesOnly : TypesOnly (d.passTest marker visible) := by
  intro c h
  simp only [passTest, Bool.and_eq_true] at h
  exact h.2.1

/-- A pass marks no visible type. -/
theorem not_mem_of_passTest {c : Coordinate} (h : d.passTest marker visible c = true) :
    c.typeName ∉ visible := by
  simp only [passTest, Bool.and_eq_true, Bool.not_eq_true', decide_eq_false_iff_not] at h
  exact h.2.2

/-- A pass marks every type that was to be marked. -/
theorem passTest_of_mem_pendingTypes {n : Name} (h : n ∈ d.pendingTypes marker visible) :
    d.passTest marker visible (.type n) = true := by
  have hvisible : n ∉ visible := (mem_pendingTypes.1 h).choose_spec.2.1
  have hsome : (d.pendingTypes marker visible).isEmpty = false :=
    List.isEmpty_eq_false_iff_exists_mem.2 ⟨n, h⟩
  simp [passTest, hsome, Coordinate.isType, Coordinate.typeName, hvisible]

/-- The definition of a type has the marker after a pass if it had it before or the type was to be
    marked. -/
theorem carries_or_passTest_iff {n : Name} {t : TypeDecl} (ht : d.definedTypes.get? n = some t) :
    (carries marker t.directives = true ∨ d.passTest marker visible (.type n) = true)
      ↔ (carries marker t.directives = true ∨ n ∈ d.pendingTypes marker visible) := by
  refine ⟨fun h => ?_, fun h => h.imp id passTest_of_mem_pendingTypes⟩
  by_cases hcarries : carries marker t.directives = true
  · exact Or.inl hcarries
  · have htest := h.resolve_left hcarries
    exact Or.inr (mem_pendingTypes.2
      ⟨t, ht, not_mem_of_passTest htest, Bool.not_eq_true _ ▸ hcarries⟩)

/-- After a pass there is nothing left to mark. -/
theorem pendingTypes_afterPass (d : Document) (marker : Name) (visible : NameSet) :
    (d.afterPass marker visible).document.pendingTypes marker visible = [] := by
  refine List.eq_nil_iff_forall_not_mem.2 fun n hn => ?_
  rw [afterPass_document, mem_pendingTypes_mark] at hn
  obtain ⟨hpending, hmiss⟩ := hn
  -- A type that was to be marked passes the test of the pass.
  rw [passTest_of_mem_pendingTypes hpending] at hmiss
  cases hmiss

/-- A pass changes nothing about what is reached. -/
theorem reachable_afterPass {reached : NameSet} (h : d.reachable (some marker) = .ok reached)
    (keep : NameSet) :
    (d.afterPass marker (reached.union keep)).document.reachable (some marker) = .ok reached := by
  rw [afterPass_document]
  -- The pass spares what is reached.
  refine reachable_mark_unreached passTest_typesOnly (fun n hn hmem => ?_) h
  exact not_mem_of_passTest hn (NameSet.mem_union.2 (Or.inl hmem))

/-! ## All passes -/

/-- Where nothing is to be marked, a cascade is over at once. -/
theorem cascadeWithin_of_settled {reached keep : NameSet} (limit : Int)
    (h : d.reachable (some marker) = .ok reached)
    (hpending : d.pendingTypes marker (reached.union keep) = []) (fuel : Nat) :
    cascadeWithin marker keep limit fuel d = .ok ⟨d, [], 0⟩ := by
  unfold cascadeWithin
  simp only [h, bind, Except.bind, hpending, List.isEmpty_nil, if_true]
  rfl

/-- Where one pass is allowed, a cascade is over after it. -/
theorem cascadeWithin_succ {reached keep : NameSet} {limit : Int}
    (h : d.reachable (some marker) = .ok reached) (fuel : Nat) :
    cascadeWithin marker keep limit (fuel + 1) d
      = .ok (d.afterPass marker (reached.union keep)) := by
  by_cases hpending : d.pendingTypes marker (reached.union keep) = []
  · rw [cascadeWithin_of_settled limit h hpending, afterPass_of_settled hpending]
  · have hreach := reachable_afterPass h keep
    have hsettled := pendingTypes_afterPass d marker (reached.union keep)
    rw [afterPass_of_pending hpending] at hreach hsettled ⊢
    -- The second pass sees the same types reached and finds nothing to mark.
    have hrest := cascadeWithin_of_settled limit hreach hsettled fuel
    rw [cascadeWithin]
    simp only [h, bind, Except.bind, List.isEmpty_iff, hpending, if_false, hrest]
    simp [pure, Except.pure]

/-- Where no pass is allowed, a cascade that has something to mark fails and says what. -/
theorem cascadeWithin_zero {reached keep : NameSet} (limit : Int)
    (h : d.reachable (some marker) = .ok reached)
    (hpending : d.pendingTypes marker (reached.union keep) ≠ []) :
    cascadeWithin marker keep limit 0 d
      = .error (.cascadeUnfinished limit (d.pendingTypes marker (reached.union keep))) := by
  rw [cascadeWithin]
  simp only [h, bind, Except.bind, List.isEmpty_iff, hpending, if_false]
  rfl

/-- Where one pass is allowed, a cascade needs nothing but an answer to what is reached. -/
theorem cascade_eq {keep : NameSet} {limit : Int} (hlimit : 1 ≤ limit) :
    d.cascade marker keep limit = (d.reachable (some marker)).map fun reached =>
      d.afterPass marker (reached.union keep) := by
  -- A pass is allowed, so the one that is needed can be taken.
  obtain ⟨fuel, hfuel⟩ : ∃ fuel, limit.toNat = fuel + 1 := ⟨limit.toNat - 1, by omega⟩
  rw [cascade, hfuel]
  cases h : d.reachable (some marker) with
  | error e =>
    unfold cascadeWithin
    simp only [h, bind, Except.bind]
    rfl
  | ok reached => exact cascadeWithin_succ h fuel

/-- A cascade answers exactly if there is an answer to what is reached, and then with the result of
    at most one pass. -/
theorem cascade_eq_ok_iff {keep : NameSet} {limit : Int} (hlimit : 1 ≤ limit)
    (result : CascadeResult) : d.cascade marker keep limit = .ok result ↔
      ∃ reached, d.reachable (some marker) = .ok reached
        ∧ d.afterPass marker (reached.union keep) = result := by
  rw [cascade_eq hlimit]
  cases d.reachable (some marker) <;> simp [Except.map]

/-- Whatever passes are allowed, a cascade that answers has the result of at most one. -/
theorem afterPass_of_cascade {keep : NameSet} {limit : Int} {result : CascadeResult}
    (h : d.cascade marker keep limit = .ok result) :
    ∃ reached, d.reachable (some marker) = .ok reached ∧
      d.afterPass marker (reached.union keep) = result := by
  by_cases hlimit : 1 ≤ limit
  · exact (cascade_eq_ok_iff hlimit result).1 h
  · have hzero : limit.toNat = 0 := by omega
    rw [cascade, hzero] at h
    cases hreached : d.reachable (some marker) with
    | error e =>
      unfold cascadeWithin at h
      simp only [hreached, bind, Except.bind] at h
      cases h
    | ok reached =>
      -- Without a pass there is an answer only if nothing is to be marked.
      by_cases hpending : d.pendingTypes marker (reached.union keep) = []
      · rw [cascadeWithin_of_settled limit hreached hpending] at h
        exact ⟨reached, rfl, (afterPass_of_settled hpending).trans (Except.ok.inj h)⟩
      · rw [cascadeWithin_zero limit hreached hpending] at h
        cases h

/-- Let `pending` be the defined types, in the order of the document, that are not reached past
    marked elements, not to be kept and not marked. If there are none, a cascade leaves the document
    as it is. If there are some and a pass is allowed, one pass marks whatever is neither reached nor
    kept, and a cascade over the result does nothing. A cascade fails for want of passes exactly if
    something is pending and no pass is allowed, and then says what. -/
theorem cascade_settles (d : Document) (marker : Name) (keep : NameSet) (limit : Int)
    {reached : NameSet} (h : d.reachable (some marker) = .ok reached) :
    ∃ pending : List Name, pending.Sublist d.definedTypes.keys ∧
      (∀ n, n ∈ pending ↔ n ∉ reached ∧ n ∉ keep ∧
        ∃ t, d.definedTypes.get? n = some t ∧ carries marker t.directives = false) ∧
      (pending = [] → d.cascade marker keep limit = .ok ⟨d, [], 0⟩) ∧
      (pending ≠ [] → 1 ≤ limit →
        d.cascade marker keep limit
          = .ok ⟨d.markTypes marker (reached.union keep), pending, 1⟩ ∧
        ∀ again : Int, (d.markTypes marker (reached.union keep)).cascade marker keep again
          = .ok ⟨d.markTypes marker (reached.union keep), [], 0⟩) ∧
      ∀ (bound : Int) (left : List Name),
        d.cascade marker keep limit = .error (.cascadeUnfinished bound left) ↔
          pending ≠ [] ∧ limit < 1 ∧ bound = limit ∧ left = pending := by
  have hallowed : 1 ≤ limit →
      d.cascade marker keep limit = .ok (d.afterPass marker (reached.union keep)) := fun hlimit =>
    (cascade_eq_ok_iff hlimit _).2 ⟨reached, h, rfl⟩
  have hsettled : d.pendingTypes marker (reached.union keep) = [] →
      d.cascade marker keep limit = .ok ⟨d, [], 0⟩ := fun hnone =>
    cascadeWithin_of_settled limit h hnone limit.toNat
  refine ⟨d.pendingTypes marker (reached.union keep), pendingTypes_sublist _ _ _, ?_, hsettled,
    ?_, ?_⟩
  · intro n
    rw [mem_pendingTypes, NameSet.mem_union, not_or]
    constructor
    · rintro ⟨t, ht, ⟨hreached, hkeep⟩, hcarries⟩
      exact ⟨hreached, hkeep, t, ht, hcarries⟩
    · rintro ⟨hreached, hkeep, t, ht, hcarries⟩
      exact ⟨t, ht, ⟨hreached, hkeep⟩, hcarries⟩
  · intro hsome hlimit
    refine ⟨by rw [hallowed hlimit, afterPass_of_pending hsome], fun again => ?_⟩
    -- After the pass the same types are reached and nothing is pending.
    have hreach := reachable_afterPass h keep
    have hnone := pendingTypes_afterPass d marker (reached.union keep)
    rw [afterPass_of_pending hsome] at hreach hnone
    exact cascadeWithin_of_settled again hreach hnone again.toNat
  · intro bound left
    by_cases hsome : d.pendingTypes marker (reached.union keep) = []
    · simp [hsettled hsome, hsome]
    by_cases hlimit : 1 ≤ limit
    · have hnot : ¬ limit < 1 := by omega
      simp [hallowed hlimit, hnot]
    · have hzero : limit.toNat = 0 := by omega
      have hlt : limit < 1 := by omega
      rw [cascade, hzero, cascadeWithin_zero limit h hsome]
      simp only [Except.error.injEq, Error.cascadeUnfinished.injEq, Ne, hsome, not_false_eq_true,
        hlt, true_and]
      rw [eq_comm, eq_comm (a := left)]

end Document

/-! ## A shop with types that only a marked field mentions -/

/-- A shop whose ledger is defined twice and extended. It and its entries refer to each other, and
    from outside only a marked field refers to them. -/
def closedLedgerShop : Document := ⟨[
  .type ⟨none, "Query", [], .object []
    [⟨none, "shop", [], .named "Shop", []⟩,
     ⟨none, "ledger", [], .named "Ledger", [⟨"hidden", []⟩]⟩]⟩,
  .type ⟨none, "Shop", [], .object [] [⟨none, "name", [], .named "String", []⟩]⟩,
  .type ⟨none, "Ledger", [], .object [] [⟨none, "sum", [], .named "Int", []⟩]⟩,
  .type ⟨none, "Entry", [], .object [] [⟨none, "ledger", [], .named "Ledger", []⟩]⟩,
  .type ⟨none, "Ledger", [], .object [] [⟨none, "entry", [], .named "Entry", []⟩]⟩,
  .typeExtension ⟨none, "Ledger", [], .object [] [⟨none, "audit", [], .named "Audit", []⟩]⟩,
  .type ⟨none, "Audit", [], .scalar⟩]⟩

/-- If the audit is kept, one pass marks the ledger and its entries, a further cascade does nothing,
    and without a pass the cascade fails because of these two. -/
theorem closedLedgerShop_cascade : ∃ reached marked,
    closedLedgerShop.reachable (some "hidden") = .ok reached ∧
    marked = closedLedgerShop.markTypes "hidden" (reached.union (.ofList ["Audit"])) ∧
    closedLedgerShop.cascade "hidden" (.ofList ["Audit"]) 1
      = .ok ⟨marked, ["Ledger", "Entry"], 1⟩ ∧
    (∀ again, marked.cascade "hidden" (.ofList ["Audit"]) again = .ok ⟨marked, [], 0⟩) ∧
    closedLedgerShop.cascade "hidden" (.ofList ["Audit"]) 0
      = .error (.cascadeUnfinished 0 ["Ledger", "Entry"]) := by
  obtain ⟨reached, hreached⟩ : ∃ reached,
      closedLedgerShop.reachable (some "hidden") = .ok reached := ⟨_, rfl⟩
  have hmarked : (closedLedgerShop.cascade "hidden" (.ofList ["Audit"]) 1).map CascadeResult.marked
      = .ok ["Ledger", "Entry"] := by rfl
  obtain ⟨pending, -, -, hnone, hsome, -⟩ :=
    Document.cascade_settles closedLedgerShop "hidden" (.ofList ["Audit"]) 1 hreached
  -- There is something pending, since the cascade marks something.
  have hpending : pending ≠ [] := by
    intro h
    rw [hnone h] at hmarked
    exact absurd (Except.ok.inj hmarked) (by decide)
  obtain ⟨hrun, hagain⟩ := hsome hpending (by decide)
  rw [hrun] at hmarked
  obtain rfl : pending = ["Ledger", "Entry"] := Except.ok.inj hmarked
  exact ⟨reached, _, hreached, rfl, hrun, hagain, by rfl⟩

end SchemaView
