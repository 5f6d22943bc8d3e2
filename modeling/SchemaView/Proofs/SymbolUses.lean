import Mathlib.Data.List.Basic
import SchemaView.Proofs.DeclaredOwners

/-!
# Uses of graph symbols

A graph symbol stands for the subgraph that its last declaration names. Owners are found out by
looking up the symbols that are used on definitions and on their members, one after the other in the
order of the text, so the first use of a symbol that stands for no subgraph is the failure.

## Key results

- `standsFor_iff`: what the computed symbols stand for
- `failure?_typeOwnership`, `failure?_ownership`: the first use that fails is the failure
- `ownership_eq_error_iff`: when owners cannot be found out
- `exists_graphSymbols_of_ownership`: where they can, every use has a subgraph behind it
-/

namespace SchemaView

open Sdl

/-! ## Uses of graph symbols -/

/-- The graph symbols that the uses of a directive on an element name. -/
def graphsNamed (directive : Name) (directives : List Directive) : List Name :=
  (usesOf directive directives).filterMap (wordArgument? "graph")

/-- The graph symbols that are used on the type of a definition. -/
def typeGraphs (u : TypeDecl) : List Name := graphsNamed "join__type" u.directives

/-- The graph symbols that are used on a member of a definition. Fields and input fields name theirs
    by one directive, the values of an enum by another; scalars and unions have no members. -/
def memberGraphs (u : TypeDecl) (m : Member) : List Name :=
  match u.body with
  | .object _ _ | .interface _ _ | .inputObject _ => graphsNamed "join__field" m.directives
  | .enum _ => graphsNamed "join__enumValue" m.directives
  | .scalar | .union _ => []

/-- They are the ones that the computation looks at. -/
theorem memberGraphs_eq {u : TypeDecl} {m : Member} (hm : m ∈ membersOf u.body) :
    memberGraphs u m = graphsNamed (memberDirective u.body) m.directives := by
  unfold memberGraphs
  cases hbody : u.body with
  | object _ _ | interface _ _ | inputObject _ | enum _ => rfl
  | scalar | union _ =>
    rw [hbody] at hm
    exact absurd hm List.not_mem_nil

/-- The uses of graph symbols in a definition, in the order of the text. -/
def symbolUses (u : TypeDecl) : List (Name × Coordinate) :=
  (typeGraphs u).map (fun symbol => (symbol, .type u.name))
    ++ (membersOf u.body).flatMap fun m =>
      (memberGraphs u m).map fun symbol => (symbol, .member u.name m.name)

namespace Document

/-- The uses of graph symbols in the definitions that count, in order. -/
def symbolUses (d : Document) : List (Name × Coordinate) :=
  d.definedTypes.values.flatMap SchemaView.symbolUses

/-- The enum of graph symbols is defined. -/
def DefinesGraphs (d : Document) : Prop :=
  ∃ u values, d.definedTypes.get? graphEnum = some u ∧ u.body = .enum values

/-- The last declaration of a graph symbol names a subgraph. -/
def StandsFor (d : Document) (symbol : Name) (subgraph : String) : Prop :=
  ∃ u before v after, d.definedTypes.get? graphEnum = some u ∧
    u.body = .enum (before ++ v :: after) ∧ v.name = symbol ∧
    (∀ other ∈ after, other.name ≠ symbol) ∧ subgraphOf? v = some subgraph

variable {d : Document} {symbols : GraphSymbols}

/-! ## Graph symbols -/

theorem graphValues_eq_ok_iff {values : List EnumValue} : d.graphValues = .ok values ↔
    ∃ u, d.definedTypes.get? graphEnum = some u ∧ u.body = .enum values := by
  unfold graphValues
  split
  · rename_i description name directives found hget
    simp [hget]
  · rename_i hnot
    simp only [reduceCtorEq, false_iff]
    rintro ⟨⟨description, name, directives, body⟩, hget, rfl⟩
    exact hnot _ _ _ _ hget

theorem graphSymbols_eq_ok_iff : d.graphSymbols = .ok symbols ↔
    ∃ u values, d.definedTypes.get? graphEnum = some u ∧ u.body = .enum values ∧
      .ofList (values.map fun v => (v.name, subgraphOf? v)) = symbols := by
  simp only [graphSymbols, bind_eq_ok_iff, pure_eq_ok_iff, graphValues_eq_ok_iff]
  constructor
  · rintro ⟨values, ⟨u, hu, hbody⟩, hsymbols⟩
    exact ⟨u, values, hu, hbody, hsymbols⟩
  · rintro ⟨u, values, hu, hbody, hsymbols⟩
    exact ⟨values, ⟨u, hu, hbody⟩, hsymbols⟩

/-- There are graph symbols unless their enum is not defined, and nothing else can be wrong. -/
theorem graphSymbols_eq_error_iff {e : Error} :
    d.graphSymbols = .error e ↔ ¬ d.DefinesGraphs ∧ e = .noSubgraphEnum := by
  have hdefined : d.DefinesGraphs ↔ ∃ symbols, d.graphSymbols = .ok symbols := by
    simp only [graphSymbols_eq_ok_iff]
    constructor
    · rintro ⟨u, values, hu, hbody⟩
      exact ⟨_, u, values, hu, hbody, rfl⟩
    · rintro ⟨_, u, values, hu, hbody, -⟩
      exact ⟨u, values, hu, hbody⟩
  have herror : ∀ e, d.graphSymbols = .error e → e = .noSubgraphEnum := by
    intro e he
    simp only [graphSymbols, graphValues] at he
    split at he
    · cases he
    · cases he
      rfl
  rw [hdefined]
  cases hrun : d.graphSymbols with
  | ok symbols => simp
  | error found =>
    rw [herror found hrun]
    simp [eq_comm]

/-- Among the computed symbols a symbol has the subgraph that it stands for. -/
theorem standsFor_iff (h : d.graphSymbols = .ok symbols) {symbol : Name} {subgraph : String} :
    d.StandsFor symbol subgraph ↔ symbols.get? symbol = some (some subgraph) := by
  obtain ⟨u, values, hu, hbody, rfl⟩ := graphSymbols_eq_ok_iff.1 h
  rw [OrderedMap.get?_ofList_map_iff]
  constructor
  · rintro ⟨u', before, v, after, hu', hbody', hname, hafter, hsubgraph⟩
    rw [hu, Option.some.injEq] at hu'
    rw [← hu', hbody, TypeBody.enum.injEq] at hbody'
    exact ⟨before, v, after, hbody', hname, hsubgraph, hafter⟩
  · rintro ⟨before, v, after, rfl, hname, hsubgraph, hafter⟩
    exact ⟨u, before, v, after, hu, hbody, hname, hafter, hsubgraph⟩

end Document

/-! ## The first use that fails -/

variable {symbols : GraphSymbols}

/-- The failure of a use of a graph symbol. -/
def useFailure? (symbols : GraphSymbols) (use : Name × Coordinate) : Option Error :=
  failure? (resolveGraph symbols use.2 use.1)

/-- A use of a symbol fails if there is no subgraph behind the symbol. -/
theorem useFailure?_eq_some_iff {use : Name × Coordinate} {e : Error} :
    useFailure? symbols use = some e ↔
      (∀ subgraph, symbols.get? use.1 ≠ some (some subgraph)) ∧
        e = .undeclaredGraph use.1 use.2 := by
  rw [useFailure?, failure?_eq_some_iff, resolveGraph]
  split
  · rename_i subgraph hget
    simp [hget]
  · rename_i hnone
    simp only [Except.error.injEq, ne_eq]
    exact ⟨fun heq => ⟨hnone, heq.symm⟩, fun h => h.2.symm⟩

theorem useFailure?_eq_none_iff {use : Name × Coordinate} :
    useFailure? symbols use = none ↔ ∃ subgraph, symbols.get? use.1 = some (some subgraph) := by
  rw [Option.eq_none_iff_forall_ne_some]
  simp only [ne_eq, useFailure?_eq_some_iff]
  constructor
  · intro h
    exact Classical.byContradiction fun hnone =>
      h (.undeclaredGraph use.1 use.2) ⟨fun subgraph hget => hnone ⟨subgraph, hget⟩, rfl⟩
  · rintro ⟨subgraph, hget⟩ e ⟨hnone, -⟩
    exact hnone subgraph hget

/-- The first result in a list of lists is the first one in the first list that has any. -/
private theorem findSome?_flatMap {α β γ : Type} (f : β → Option γ) (g : α → List β) (xs : List α) :
    (xs.flatMap g).findSome? f = xs.findSome? fun x => (g x).findSome? f := by
  simp only [← List.head?_filterMap, List.filterMap_flatMap, List.head?_flatMap]

theorem failure?_namedOwners {directive : Name} {element : Coordinate}
    {directives : List Directive} :
    failure? (namedOwners symbols directive element directives) =
      ((graphsNamed directive directives).map fun symbol => (symbol, element)).findSome?
        (useFailure? symbols) := by
  rw [namedOwners, graphsNamed, List.findSome?_map]
  split
  · rename_i hnone
    rw [hnone]
    rfl
  · exact (failure?_bind_pure _ _).trans failure?_mapM

theorem failure?_memberOwners {u : TypeDecl} {typeOwners : NameSet} {m : Member}
    (hm : m ∈ membersOf u.body) : failure? (memberOwners symbols u typeOwners m) =
      ((memberGraphs u m).map fun symbol => (symbol, Coordinate.member u.name m.name)).findSome?
        (useFailure? symbols) := by
  rw [memberGraphs_eq hm]
  exact (failure?_bind_pure _ _).trans failure?_namedOwners

/-- The owners of a type cannot be found out if a use of a symbol in its definition fails, and the
    first one that does is the failure. -/
theorem failure?_typeOwnership {u : TypeDecl} :
    failure? (typeOwnership symbols u) = (symbolUses u).findSome? (useFailure? symbols) := by
  rw [typeOwnership, symbolUses, List.findSome?_append, typeGraphs, ← failure?_namedOwners]
  -- Whatever the owners of the type are, the members have the failures that are left.
  refine failure?_bind fun own => (failure?_bind_pure _ _).trans ?_
  rw [failure?_mapM, findSome?_flatMap, ← List.head?_filterMap, ← List.head?_filterMap]
  exact congrArg List.head? (List.filterMap_congr fun m hm => failure?_memberOwners hm)

namespace Document

variable {d : Document}

/-- Where there are graph symbols, the first use that fails is the failure. -/
theorem failure?_ownership (h : d.graphSymbols = .ok symbols) :
    failure? d.ownership = d.symbolUses.findSome? (useFailure? symbols) := by
  rw [ownership, h]
  refine (failure?_bind_pure _ _).trans ?_
  rw [failure?_mapM, symbolUses, findSome?_flatMap]
  simp only [failure?_typeOwnership]

/-- Owners cannot be found out if the enum of graph symbols is not defined, or if a symbol is used
    that stands for no subgraph; then the first such use is the failure. -/
theorem ownership_eq_error_iff {e : Error} : d.ownership = .error e ↔
    (¬ d.DefinesGraphs ∧ e = .noSubgraphEnum) ∨
    (d.DefinesGraphs ∧ ∃ before symbol element after,
      d.symbolUses = before ++ (symbol, element) :: after ∧
      (∀ use ∈ before, ∃ subgraph, d.StandsFor use.1 subgraph) ∧
      (∀ subgraph, ¬ d.StandsFor symbol subgraph) ∧ e = .undeclaredGraph symbol element) := by
  cases hsymbols : d.graphSymbols with
  | error found =>
    obtain ⟨hnot, rfl⟩ := graphSymbols_eq_error_iff.1 hsymbols
    have hrun : d.ownership = .error .noSubgraphEnum := by
      rw [ownership, hsymbols]
      rfl
    simp [hrun, hnot, eq_comm]
  | ok symbols =>
    have hdefined : d.DefinesGraphs := by
      obtain ⟨u, values, hu, hbody, -⟩ := graphSymbols_eq_ok_iff.1 hsymbols
      exact ⟨u, values, hu, hbody⟩
    rw [← failure?_eq_some_iff, failure?_ownership hsymbols, List.findSome?_eq_some_iff]
    simp only [useFailure?_eq_some_iff, useFailure?_eq_none_iff, ← standsFor_iff hsymbols, hdefined,
      not_true_eq_false, false_and, false_or, true_and, ne_eq, Prod.exists]
    constructor
    · rintro ⟨before, symbol, element, after, huses, ⟨hnone, he⟩, hbefore⟩
      exact ⟨before, symbol, element, after, huses, hbefore, hnone, he⟩
    · rintro ⟨before, symbol, element, after, huses, hbefore, hnone, he⟩
      exact ⟨before, symbol, element, after, huses, ⟨hnone, he⟩, hbefore⟩

/-- Where owners can be found out, there are graph symbols, and every use of one has a subgraph
    behind it. -/
theorem exists_graphSymbols_of_ownership {o : Ownership} (ho : d.ownership = .ok o) :
    ∃ symbols, d.graphSymbols = .ok symbols ∧
      ∀ use ∈ d.symbolUses, ∃ subgraph, symbols.get? use.1 = some (some subgraph) := by
  obtain ⟨symbols, hsymbols, -⟩ := bind_eq_ok_iff.1 ho
  refine ⟨symbols, hsymbols, fun use huse => ?_⟩
  have hnone : failure? d.ownership = none := failure?_eq_none_iff.2 ⟨o, ho⟩
  rw [failure?_ownership hsymbols, List.findSome?_eq_none_iff] at hnone
  exact useFailure?_eq_none_iff.1 (hnone use huse)

end Document

end SchemaView
