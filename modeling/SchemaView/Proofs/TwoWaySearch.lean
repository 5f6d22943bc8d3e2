import Mathlib.Data.List.Chain
import SchemaView.Proofs.WalkCorrect
import SchemaView.TypeGraph.Path

/-!
# A search from both ends finds a shortest path

`TypeGraph.shortestPath?` grows one search from the source along edges and one from the target
against them, until some node was met by both. This file proves that it answers with a path through
the graph that no other path between the two nodes undercuts, and that it answers whenever there is
a path at all.

Both searches are the same search with another `next`, so the invariant `Searched` and the step
`Searched.grow` are stated once for any `next`. After `n` levels a search has met exactly the nodes
that are at most `n` steps away. As long as no node was met from both sides, a path has more steps
than the two searches have levels, and the first node that is met from both sides closes a path with
one step more.

## Key results

- `isPath_iff_way`, `isPath_join`, `IsPath.split`: paths as two ways that end at one node
- `followed_followSteps`: steps keep the way back from every node that was met
- `Searched.grow`: the invariant after one more level
- `answersRightly_meet`: the search from both ends, level by level
- `findsShortest_shortestPath?`: what is answered
-/

namespace SchemaView

open Sdl (Name)

namespace TypeGraph

/-- The nodes of a path along edges, both ends included. -/
structure IsPath (g : TypeGraph) (source target : Name) (path : List Name) : Prop where
  starts : path.head? = some source
  ends : path.getLast? = some target
  follows : path.IsChain fun a b => b ∈ g.successors a

/-- A path than which none with the same ends is shorter. -/
structure IsShortestPath (g : TypeGraph) (source target : Name) (path : List Name) : Prop
    extends g.IsPath source target path where
  shortest : ∀ other, g.IsPath source target other → path.length ≤ other.length

/-! ## Ways back to the start of a search -/

/-- The nodes from some node back to the start of a search, each of them one step behind the one in
    front of it. -/
inductive Way (next : Name → List Name) (start : Name) : Name → List Name → Prop
  | start : Way next start start [start]
  | step {previous name : Name} {way : List Name} (hway : Way next start previous way)
      (hstep : name ∈ next previous) : Way next start name (name :: way)

variable {next : Name → List Name} {start name : Name} {way : List Name}

/-- A way begins with the node from which it leads back. -/
theorem Way.eq_cons (h : Way next start name way) : way = name :: way.tail := by
  cases h with
  | start => rfl
  | step _ _ => rfl

theorem Way.length_pos (h : Way next start name way) : 0 < way.length := by
  rw [h.eq_cons]
  simp

/-- A way of one node leads from the start. -/
theorem Way.eq_start (h : Way next start name way) (hlength : way.length ≤ 1) : name = start := by
  cases h with
  | start => rfl
  | step hway _ =>
    have hpos := hway.length_pos
    simp only [List.length_cons] at hlength
    omega

/-- A way back to a start leads back to any node that is one step in front of the start. -/
theorem Way.extend {first : Name} (h : Way next start name way) (hfirst : start ∈ next first) :
    Way next first name (way ++ [first]) := by
  induction h with
  | start => exact .step .start hfirst
  | step _ hstep ih => exact .step ih hstep

/-- Where steps stay within some nodes, so do ways. -/
theorem Way.mem {nodes : List Name} (h : Way next start name way) (hstart : start ∈ nodes)
    (hnext : ∀ n, ∀ t ∈ next n, t ∈ nodes) : name ∈ nodes := by
  cases h with
  | start => exact hstart
  | step _ hstep => exact hnext _ _ hstep

/-! ## Paths and ways -/

variable {g : TypeGraph} {source target : Name} {path : List Name}

theorem mem_predecessors {n s : Name} : s ∈ g.predecessors n ↔ n ∈ g.successors s := by
  rw [mem_successors]
  simp [predecessors, OrderedMap.keys]

/-- A path is a way against the edges, from its source back to its target. -/
theorem isPath_iff_way : g.IsPath source target path ↔
    Way g.predecessors target source path := by
  constructor
  · intro h
    induction path generalizing source with
    | nil => exact absurd h.starts (by simp)
    | cons a rest ih =>
      obtain ⟨hstarts, hends, hfollows⟩ := h
      obtain rfl : a = source := by simpa using hstarts
      cases rest with
      | nil =>
        obtain rfl : a = target := by simpa using hends
        exact .start
      | cons b rest =>
        rw [List.isChain_cons_cons] at hfollows
        have hrest : g.IsPath b target (b :: rest) := ⟨rfl, by simpa using hends, hfollows.2⟩
        exact .step (ih hrest) (mem_predecessors.2 hfollows.1)
  · intro h
    induction h with
    | start => exact ⟨rfl, rfl, List.isChain_singleton _⟩
    | @step previous name way hway hstep ih =>
      obtain ⟨rest, rfl⟩ : ∃ rest, way = previous :: rest := ⟨_, hway.eq_cons⟩
      refine ⟨rfl, ?_, ?_⟩
      · simpa using ih.ends
      · exact List.isChain_cons_cons.2 ⟨mem_predecessors.1 hstep, ih.follows⟩

/-- A way along the edges from the source and a way against them from the target make up a path if
    they lead to one node. -/
theorem isPath_join {forth back : List Name} (hforth : Way g.successors source name forth)
    (hback : Way g.predecessors target name back) :
    g.IsPath source target (forth.reverse ++ back.drop 1) := by
  induction hforth generalizing back with
  | start =>
    rw [isPath_iff_way]
    have hsame : [source].reverse ++ back.drop 1 = back := by
      rw [hback.eq_cons]
      simp
    rwa [hsame]
  | @step previous name forth _ hstep ih =>
    -- The last node of the first way is handed over to the second way.
    have hlonger : Way g.predecessors target previous (previous :: back) :=
      .step hback (mem_predecessors.2 hstep)
    have hmoved : (name :: forth).reverse ++ back.drop 1
        = forth.reverse ++ (previous :: back).drop 1 := by
      rw [hback.eq_cons]
      simp
    rw [hmoved]
    exact ih hlonger

/-- A path is split at any of its nodes. -/
theorem IsPath.split (h : g.IsPath source target path) {n m : Nat}
    (hlength : path.length = n + m + 1) : ∃ name forth back,
      Way g.successors source name forth ∧ forth.length = n + 1 ∧
      Way g.predecessors target name back ∧ back.length = m + 1 := by
  rw [isPath_iff_way] at h
  induction n generalizing source path with
  | zero => exact ⟨source, [source], path, .start, rfl, h, by omega⟩
  | succ n ih =>
    cases h with
    | start =>
      simp only [List.length_singleton] at hlength
      omega
    | @step second _ rest hrest hstep =>
      rw [List.length_cons] at hlength
      obtain ⟨name, forth, back, hforth, hn, hback, hm⟩ := ih hrest (by omega)
      have hlonger := hforth.extend (mem_predecessors.1 hstep)
      exact ⟨name, forth ++ [source], back, hlonger, by simp [hn], hback, hm⟩

/-- There is a path to the nodes from which a way leads back to the source. -/
theorem exists_path_iff : (∃ path, g.IsPath source target path) ↔
    ∃ way, Way g.successors source target way := by
  constructor
  · rintro ⟨path, h⟩
    have hpos : 0 < path.length := (isPath_iff_way.1 h).length_pos
    obtain ⟨name, forth, back, hforth, -, hback, hlast⟩ :=
      h.split (n := path.length - 1) (m := 0) (by omega)
    obtain rfl : name = target := hback.eq_start (by omega)
    exact ⟨forth, hforth⟩
  · rintro ⟨way, h⟩
    exact ⟨_, isPath_join h .start⟩

end TypeGraph

/-! ## Trails -/

namespace Trail

open TypeGraph (Way)

variable {next : Name → List Name} {start x y : Name} {bound : Nat} {trail other : Trail}

theorem has_iff : trail.has x = true ↔ x ∈ trail.map Prod.fst := by
  simp [has]

theorem has_cons {origin : Option Name} :
    Trail.has ((x, origin) :: trail) y = true ↔ x = y ∨ trail.has y = true := by
  simp [has]

/-- The way back from a node does not change when another node is met. -/
theorem wayBack_cons_of_ne {origin : Option Name} (h : x ≠ y) :
    Trail.wayBack ((x, origin) :: trail) y = trail.wayBack y := by
  simp [wayBack, h]

/-- No node was met twice, and from every node that was met the trail gives a way back to the start,
    with a bound on its nodes. -/
structure Rooted (next : Name → List Name) (start : Name) (bound : Nat) (trail : Trail) :
    Prop where
  distinct : (trail.map Prod.fst).Nodup
  way : ∀ x, trail.has x = true → Way next start x (trail.wayBack x)
  short : ∀ x, trail.has x = true → (trail.wayBack x).length ≤ bound

/-- A step to a new node gives it a way back. -/
theorem Rooted.cons (h : trail.Rooted next start (bound + 1)) (hsource : trail.has x = true)
    (hshort : (trail.wayBack x).length ≤ bound) (hstep : y ∈ next x) (hnew : trail.has y = false) :
    Rooted next start (bound + 1) ((y, some x) :: trail) := by
  have hback : Trail.wayBack ((y, some x) :: trail) y = y :: trail.wayBack x := by
    simp [wayBack]
  have hother : ∀ z, trail.has z = true → y ≠ z := by
    rintro z hz rfl
    rw [hnew] at hz
    cases hz
  refine ⟨?_, ?_, ?_⟩
  · have hnot : y ∉ trail.map Prod.fst := by
      rw [← has_iff, hnew]
      simp
    exact List.nodup_cons.2 ⟨hnot, h.distinct⟩
  · intro z hz
    rcases has_cons.1 hz with rfl | hz
    · rw [hback]
      exact .step (h.way x hsource) hstep
    · rw [wayBack_cons_of_ne (hother z hz)]
      exact h.way z hz
  · intro z hz
    rcases has_cons.1 hz with rfl | hz
    · rw [hback, List.length_cons]
      omega
    · rw [wayBack_cons_of_ne (hother z hz)]
      exact h.short z hz

end Trail

/-! ## Following the steps of a level -/

namespace TypeGraph

open Trail

variable {next : Name → List Name} {start : Name} {bound : Nat} {other trail : Trail}
  {steps : List (Name × Name)} {level : List Name}

/-- A step leads from a node with a short way back to one that is next to it. -/
structure IsStep (next : Name → List Name) (bound : Nat) (trail : Trail) (step : Name × Name) :
    Prop where
  met : trail.has step.1 = true
  short : (trail.wayBack step.1).length ≤ bound
  next : step.2 ∈ next step.1

/-- A step is still one when a new node was met. -/
theorem IsStep.cons {step : Name × Name} (h : IsStep next bound trail step) {x : Name}
    {origin : Option Name} (hnew : trail.has x = false) :
    IsStep next bound ((x, origin) :: trail) step := by
  have hne : x ≠ step.1 := by
    rintro rfl
    rw [h.met] at hnew
    cases hnew
  refine ⟨has_cons.2 (Or.inr h.met), ?_, h.next⟩
  rw [wayBack_cons_of_ne hne]
  exact h.short

/-- What comes of following steps: the trail with the new nodes in front, which are also in front of
    the level, and the node at which the other search was met. -/
structure Followed (next : Name → List Name) (start : Name) (bound : Nat) (other trail : Trail)
    (steps : List (Name × Name)) (level : List Name) (result : Trail × List Name × Option Name) :
    Prop where
  rooted : result.1.Rooted next start (bound + 1)
  added : ∃ fresh : Trail, result.1 = fresh ++ trail ∧ result.2.1 = fresh.map Prod.fst ++ level
  met : ∀ w, result.2.2 = some w → result.1.has w = true ∧ other.has w = true
  done : result.2.2 = none →
    (∀ x, result.1.has x = true ↔ trail.has x = true ∨ ∃ step ∈ steps, step.2 = x) ∧
    ∀ step ∈ steps, other.has step.2 = false

/-- Following steps keeps a way back from every node that was met. It stops at a node that the other
    search has met, and without one it meets whatever the steps lead to. -/
theorem followed_followSteps (h : trail.Rooted next start (bound + 1))
    (hsteps : ∀ step ∈ steps, IsStep next bound trail step) :
    Followed next start bound other trail steps level (followSteps other steps trail level) := by
  -- Induction on the steps that are left, whatever was met before them.
  induction steps generalizing trail level with
  | nil =>
    refine ⟨h, ⟨[], rfl, rfl⟩, ?_, ?_⟩
    · intro w hw
      cases hw
    · intro _
      simp [followSteps]
  | cons step steps ih =>
    obtain ⟨x, y⟩ := step
    have hstep : IsStep next bound trail (x, y) := hsteps _ List.mem_cons_self
    have hrest : ∀ step ∈ steps, IsStep next bound trail step := fun step hmem =>
      hsteps step (List.mem_cons_of_mem _ hmem)
    cases hold : trail.has y with
    | true =>
      -- The step leads to a node that was met before, and nothing is added.
      cases hother : other.has y with
      | true =>
        have hrun : followSteps other ((x, y) :: steps) trail level = (trail, level, some y) := by
          simp [followSteps, hold, hother]
        rw [hrun]
        refine ⟨h, ⟨[], rfl, rfl⟩, ?_, ?_⟩
        · intro w hw
          cases hw
          exact ⟨hold, hother⟩
        · intro hnone
          cases hnone
      | false =>
        have hrun : followSteps other ((x, y) :: steps) trail level
            = followSteps other steps trail level := by
          simp [followSteps, hold, hother]
        have hfollowed := @ih trail level h hrest
        rw [hrun]
        refine ⟨hfollowed.rooted, hfollowed.added, hfollowed.met, fun hnone => ?_⟩
        obtain ⟨hmet, hmissed⟩ := hfollowed.done hnone
        refine ⟨fun z => ?_, List.forall_mem_cons.2 ⟨hother, hmissed⟩⟩
        rw [hmet z]
        grind
    | false =>
      have hadded := h.cons hstep.met hstep.short hstep.next hold
      cases hother : other.has y with
      | true =>
        have hrun : followSteps other ((x, y) :: steps) trail level
            = ((y, some x) :: trail, y :: level, some y) := by
          simp [followSteps, hold, hother]
        rw [hrun]
        refine ⟨hadded, ⟨[(y, some x)], rfl, rfl⟩, ?_, ?_⟩
        · intro w hw
          cases hw
          exact ⟨has_cons.2 (Or.inl rfl), hother⟩
        · intro hnone
          cases hnone
      | false =>
        have hrun : followSteps other ((x, y) :: steps) trail level
            = followSteps other steps ((y, some x) :: trail) (y :: level) := by
          simp [followSteps, hold, hother]
        have hfollowed := @ih ((y, some x) :: trail) (y :: level) hadded fun step hmem =>
          (hrest step hmem).cons hold
        rw [hrun]
        refine ⟨hfollowed.rooted, ?_, hfollowed.met, fun hnone => ?_⟩
        · obtain ⟨fresh, htrail, hlevel⟩ := hfollowed.added
          refine ⟨fresh ++ [(y, some x)], ?_, ?_⟩
          · simp [htrail]
          · simp [hlevel]
        · obtain ⟨hmet, hmissed⟩ := hfollowed.done hnone
          refine ⟨fun z => ?_, List.forall_mem_cons.2 ⟨hother, hmissed⟩⟩
          rw [hmet z, has_cons]
          grind

/-! ## The invariant of one search -/

/-- The steps that a search takes from a level. -/
def levelSteps (next : Name → List Name) (level : List Name) : List (Name × Name) :=
  level.flatMap fun v => (next v).map fun w => (v, w)

theorem mem_levelSteps {step : Name × Name} :
    step ∈ levelSteps next level ↔ step.1 ∈ level ∧ step.2 ∈ next step.1 := by
  simp only [levelSteps, List.mem_flatMap, List.mem_map]
  constructor
  · rintro ⟨v, hv, w, hw, rfl⟩
    exact ⟨hv, hw⟩
  · rintro ⟨hlevel, hnext⟩
    exact ⟨step.1, hlevel, step.2, hnext, rfl⟩

/-- What a search has met after some levels: every node with so short a way back to the start, and
    with such a way. Only from nodes of the last level there may be steps to nodes not met yet. -/
structure Searched (next : Name → List Name) (start : Name) (levels : Nat) (trail : Trail)
    (level : List Name) : Prop where
  rooted : trail.Rooted next start (levels + 1)
  near : ∀ x way, Way next start x way → way.length ≤ levels + 1 → trail.has x = true
  level_met : ∀ x ∈ level, trail.has x = true
  settled : ∀ x, trail.has x = true → x ∉ level → ∀ y ∈ next x, trail.has y = true

variable {levels : Nat}

/-- A search begins at its start. -/
theorem Searched.init (next : Name → List Name) (start : Name) :
    Searched next start 0 [(start, none)] [start] := by
  have hhas : ∀ x, Trail.has [(start, none)] x = true ↔ start = x := by
    intro x
    simp [Trail.has]
  have hback : Trail.wayBack [(start, none)] start = [start] := by
    simp [Trail.wayBack]
  refine ⟨⟨by simp, ?_, ?_⟩, ?_, ?_, ?_⟩
  · intro x hx
    obtain rfl := (hhas x).1 hx
    rw [hback]
    exact .start
  · intro x hx
    obtain rfl := (hhas x).1 hx
    rw [hback]
    simp
  · intro x way hway hlength
    exact (hhas x).2 (hway.eq_start (by omega)).symm
  · intro x hx
    exact (hhas x).2 (List.mem_singleton.1 hx).symm
  · intro x hx hnot
    exact absurd (List.mem_singleton.2 ((hhas x).1 hx).symm) hnot

/-- The steps that a search takes from its last level. -/
theorem Searched.isStep (h : Searched next start levels trail level) :
    ∀ step ∈ levelSteps next level, IsStep next (levels + 1) trail step := by
  intro step hstep
  obtain ⟨hlevel, hnext⟩ := mem_levelSteps.1 hstep
  have hmet := h.level_met _ hlevel
  exact ⟨hmet, h.rooted.short _ hmet, hnext⟩

/-- The steps from the last level are followed. -/
theorem Searched.followed (h : Searched next start levels trail level) (other : Trail) :
    Followed next start (levels + 1) other trail (levelSteps next level) []
      (followSteps other (levelSteps next level) trail []) := by
  refine followed_followSteps ⟨h.rooted.distinct, h.rooted.way, fun x hx => ?_⟩ h.isStep
  have hshort := h.rooted.short x hx
  omega

/-- A search that has not met the other one grows by a level. -/
theorem Searched.grow (h : Searched next start levels trail level) {trail' : Trail}
    {level' : List Name}
    (hrun : followSteps other (levelSteps next level) trail [] = (trail', level', none)) :
    Searched next start (levels + 1) trail' level'.reverse := by
  have hfollowed := h.followed other
  rw [hrun] at hfollowed
  obtain ⟨hmet, -⟩ := hfollowed.done rfl
  obtain ⟨fresh, htrail, hlevel⟩ := hfollowed.added
  simp only [List.append_nil] at htrail hlevel hmet
  -- Whatever is next to a node that was met before is met now.
  have hnext : ∀ x, trail.has x = true → ∀ y ∈ next x, trail'.has y = true := by
    intro x hx y hy
    rw [hmet]
    by_cases hmem : x ∈ level
    · exact Or.inr ⟨(x, y), mem_levelSteps.2 ⟨hmem, hy⟩, rfl⟩
    · exact Or.inl (h.settled x hx hmem y hy)
  refine ⟨hfollowed.rooted, ?_, ?_, ?_⟩
  · intro x way hway hlength
    cases hway with
    | start => exact (hmet _).2 (Or.inl (h.near _ _ .start (by simp)))
    | @step previous _ way hway hstep =>
      rw [List.length_cons] at hlength
      exact hnext previous (h.near previous way hway (by omega)) x hstep
  · intro x hx
    rw [List.mem_reverse, hlevel] at hx
    rw [Trail.has_iff, htrail, List.map_append]
    exact List.mem_append_left _ hx
  · intro x hx hnot
    -- The new level holds all new nodes, so this one was met before.
    have hold : trail.has x = true := by
      rw [Trail.has_iff, htrail, List.map_append, List.mem_append, ← hlevel] at hx
      rw [Trail.has_iff]
      exact hx.resolve_left fun hlevel' => hnot (List.mem_reverse.2 hlevel')
    exact hnext x hold

/-- A search that has not met the other one has met a new node or has none to go on from. -/
theorem Searched.longer (h : Searched next start levels trail level) {trail' : Trail}
    {level' : List Name}
    (hrun : followSteps other (levelSteps next level) trail [] = (trail', level', none)) :
    level'.reverse = [] ∨ trail.length < trail'.length := by
  obtain ⟨fresh, htrail, hlevel⟩ := (h.followed other).added
  rw [hrun] at htrail hlevel
  simp only [List.append_nil] at htrail hlevel
  cases fresh with
  | nil => exact Or.inl (by simp [hlevel])
  | cons e fresh =>
    refine Or.inr ?_
    simp only [htrail, List.length_append, List.length_cons]
    omega

/-- Where a search meets the other one there is a way back that is at most one level longer. -/
theorem Searched.meets (h : Searched next start levels trail level) {trail' : Trail}
    {level' : List Name} {w : Name}
    (hrun : followSteps other (levelSteps next level) trail [] = (trail', level', some w)) :
    other.has w = true ∧ Way next start w (trail'.wayBack w) ∧
      (trail'.wayBack w).length ≤ levels + 2 := by
  have hfollowed := h.followed other
  rw [hrun] at hfollowed
  obtain ⟨hhere, hthere⟩ := hfollowed.met w rfl
  exact ⟨hthere, hfollowed.rooted.way w hhere, hfollowed.rooted.short w hhere⟩

/-- A search that has no node to go on from has met everything from which there is a way back. -/
theorem Searched.has_of_way (h : Searched next start levels trail []) {x : Name} {way : List Name}
    (hway : Way next start x way) : trail.has x = true := by
  induction hway with
  | start => exact h.near _ _ .start (by simp)
  | step _ hstep ih => exact h.settled _ ih List.not_mem_nil _ hstep

/-- The trail of a search is not longer than the number of nodes. -/
theorem Searched.length_le (h : Searched next start levels trail level) {nodes : List Name}
    (hstart : start ∈ nodes) (hnext : ∀ n, ∀ t ∈ next n, t ∈ nodes) :
    trail.length ≤ nodes.length := by
  have hsub : trail.map Prod.fst ⊆ nodes := by
    intro x hx
    exact (h.rooted.way x (Trail.has_iff.2 hx)).mem hstart hnext
  have hle := h.rooted.distinct.length_le_of_subset hsub
  rwa [List.length_map] at hle

/-! ## Both searches -/

/-- Two searches towards each other that have not met. -/
structure Apart (g : TypeGraph) (source target : Name) (n m : Nat) (forward : Trail)
    (front : List Name) (backward : Trail) (back : List Name) : Prop where
  forth : Searched g.successors source n forward front
  back : Searched g.predecessors target m backward back
  apart : ∀ x, forward.has x = true → backward.has x = false

variable {g : TypeGraph} {source target : Name} {path : List Name}
  {n m : Nat} {forward backward : Trail} {front back : List Name}

/-- While the searches have not met, a path has more nodes than both have levels. -/
theorem Apart.lt_length (h : Apart g source target n m forward front backward back)
    (hpath : g.IsPath source target path) : n + m + 1 < path.length := by
  by_contra hshort
  have hpos := (isPath_iff_way.1 hpath).length_pos
  -- A node of the path is near enough to both ends to be met by both searches.
  have hlength : path.length = min n (path.length - 1) + (path.length - 1 - min n (path.length - 1))
      + 1 := by
    omega
  obtain ⟨x, forth, back, hforth, hn, hback, hm⟩ := hpath.split hlength
  have hmet := h.forth.near x forth hforth (by omega)
  have hmet' := h.back.near x back hback (by omega)
  rw [h.apart x hmet] at hmet'
  cases hmet'

/-- Where one of the searches has no node to go on from, there is no path. -/
theorem Apart.no_path (h : Apart g source target n m forward front backward back)
    (hstuck : front = [] ∨ back = []) : ¬ g.IsPath source target path := by
  intro hpath
  rcases hstuck with rfl | rfl
  · -- The forward search has met the target.
    obtain ⟨way, hway⟩ := exists_path_iff.1 ⟨path, hpath⟩
    have hmissed := h.apart target (h.forth.has_of_way hway)
    rw [h.back.near target _ .start (by simp)] at hmissed
    cases hmissed
  · -- The backward search has met the source.
    have hmissed := h.apart source (h.forth.near source _ .start (by simp))
    rw [h.back.has_of_way (isPath_iff_way.1 hpath)] at hmissed
    cases hmissed

/-- What a search from both ends may answer: trails that make up a shortest path through a node, or
    nothing if there is no path. -/
def AnswersRightly (g : TypeGraph) (source target : Name) : Option (Trail × Trail × Name) → Prop
  | some (forward, backward, w) => g.IsShortestPath source target
      ((forward.wayBack w).reverse ++ (backward.wayBack w).drop 1)
  | none => ∀ path, ¬ g.IsPath source target path

/-- Ways from a node that both searches have met make up a shortest path, if they are no longer than
    one level more than the searches had. -/
theorem Apart.isShortestPath (h : Apart g source target n m forward front backward back)
    {w : Name} {forth back' : List Name} (hforth : Way g.successors source w forth)
    (hback : Way g.predecessors target w back')
    (hlength : forth.length + back'.length ≤ n + m + 3) :
    g.IsShortestPath source target (forth.reverse ++ back'.drop 1) := by
  refine ⟨isPath_join hforth hback, fun other hother => ?_⟩
  have hlong := h.lt_length hother
  have hpos := hback.length_pos
  simp only [List.length_append, List.length_reverse, List.length_drop]
  omega

/-- The forward search grows by a level. -/
theorem Apart.grow_forth (h : Apart g source target n m forward front backward back)
    {trail' : Trail} {level' : List Name}
    (hrun : followSteps backward (levelSteps g.successors front) forward []
      = (trail', level', none)) :
    Apart g source target (n + 1) m trail' level'.reverse backward back := by
  refine ⟨h.forth.grow hrun, h.back, fun x hx => ?_⟩
  have hdone := (h.forth.followed backward).done
  rw [hrun] at hdone
  obtain ⟨hmet, hmissed⟩ := hdone rfl
  rcases (hmet x).1 hx with hold | ⟨step, hstep, rfl⟩
  · exact h.apart x hold
  · exact hmissed step hstep

/-- The backward search grows by a level. -/
theorem Apart.grow_back (h : Apart g source target n m forward front backward back)
    {trail' : Trail} {level' : List Name}
    (hrun : followSteps forward (levelSteps g.predecessors back) backward []
      = (trail', level', none)) :
    Apart g source target n (m + 1) forward front trail' level'.reverse := by
  refine ⟨h.forth, h.back.grow hrun, fun x hx => ?_⟩
  have hdone := (h.back.followed forward).done
  rw [hrun] at hdone
  obtain ⟨hmet, hmissed⟩ := hdone rfl
  rw [Bool.eq_false_iff]
  intro hboth
  rcases (hmet x).1 hboth with hold | ⟨step, hstep, rfl⟩
  · rw [h.apart x hx] at hold
    cases hold
  · rw [hmissed step hstep] at hx
    cases hx

/-- All ends of edges are nodes. -/
def EndsAreNodes (g : TypeGraph) : Prop :=
  ∀ s t, t ∈ g.successors s → s ∈ g.nodes.keys ∧ t ∈ g.nodes.keys

/-- Two searches do not meet if one of them has no node to go on from. -/
theorem meet_stuck (h : front = [] ∨ back = []) (fuel : Nat) :
    g.meet fuel forward front backward back = none := by
  cases fuel with
  | zero => rfl
  | succ fuel =>
    have hempty : (front.isEmpty || back.isEmpty) = true := by
      simpa using h
    rw [meet, if_pos hempty]

/-- The search with the smaller level grows, here the forward one. Both go on unless they met. -/
theorem meet_forth (hstuck : ¬ (front = [] ∨ back = [])) (hsmaller : front.length ≤ back.length)
    {trail : Trail} {level : List Name} {found : Option Name}
    (hrun : followSteps backward (levelSteps g.successors front) forward [] = (trail, level, found))
    (fuel : Nat) : g.meet (fuel + 1) forward front backward back
      = found.elim (g.meet fuel trail level.reverse backward back)
        fun w => some (trail, backward, w) := by
  have hsome : ¬ (front.isEmpty || back.isEmpty) = true := by
    simpa using hstuck
  rw [levelSteps] at hrun
  rw [meet, if_neg hsome, if_pos hsmaller]
  simp only [hrun]
  cases found with
  | none => rfl
  | some w => rfl

/-- Here the backward search grows. -/
theorem meet_back (hstuck : ¬ (front = [] ∨ back = [])) (hlarger : ¬ front.length ≤ back.length)
    {trail : Trail} {level : List Name} {found : Option Name}
    (hrun : followSteps forward (levelSteps g.predecessors back) backward []
      = (trail, level, found))
    (fuel : Nat) : g.meet (fuel + 1) forward front backward back
      = found.elim (g.meet fuel forward front trail level.reverse)
        fun w => some (forward, trail, w) := by
  have hsome : ¬ (front.isEmpty || back.isEmpty) = true := by
    simpa using hstuck
  rw [levelSteps] at hrun
  rw [meet, if_neg hsome, if_neg hlarger]
  simp only [hrun]
  cases found with
  | none => rfl
  | some w => rfl

/-- A search from both ends finds a shortest path if there is one, provided that it may take as many
    levels as there are nodes left to be met from either end. -/
theorem answersRightly_meet (hnodes : g.EndsAreNodes) (hsource : source ∈ g.nodes.keys)
    (htarget : target ∈ g.nodes.keys) {fuel : Nat}
    (h : Apart g source target n m forward front backward back)
    (hfuel : front = [] ∨ back = [] ∨ 2 * g.nodes.size < fuel + forward.length + backward.length) :
    AnswersRightly g source target (g.meet fuel forward front backward back) := by
  -- Induction on the levels that are left; every level that is not the last one meets a node.
  induction fuel generalizing n m forward front backward back with
  | zero =>
    intro path
    have hforward := h.forth.length_le hsource fun s t ht => (hnodes s t ht).2
    have hbackward := h.back.length_le htarget fun s t ht =>
      (hnodes t s (mem_predecessors.1 ht)).1
    simp only [OrderedMap.keys, List.length_map] at hforward hbackward
    simp only [OrderedMap.size] at hfuel
    apply h.no_path
    rcases hfuel with hfront | hback | hfuel
    · exact Or.inl hfront
    · exact Or.inr hback
    · omega
  | succ fuel ih =>
    by_cases hstuck : front = [] ∨ back = []
    · rw [meet_stuck hstuck]
      exact fun path => h.no_path hstuck
    · have hfuel : 2 * g.nodes.size < fuel + 1 + forward.length + backward.length := by
        tauto
      by_cases hsmaller : front.length ≤ back.length
      · rcases hrun : followSteps backward (levelSteps g.successors front) forward []
          with ⟨trail, level, _ | w⟩
        · rw [meet_forth hstuck hsmaller hrun]
          apply ih (h.grow_forth hrun)
          rcases h.forth.longer hrun with hnone | hlonger
          · exact Or.inl hnone
          · exact Or.inr (Or.inr (by omega))
        · rw [meet_forth hstuck hsmaller hrun]
          obtain ⟨hthere, hforth, hlength⟩ := h.forth.meets hrun
          have hshort := h.back.rooted.short w hthere
          exact h.isShortestPath hforth (h.back.rooted.way w hthere) (by omega)
      · rcases hrun : followSteps forward (levelSteps g.predecessors back) backward []
          with ⟨trail, level, _ | w⟩
        · rw [meet_back hstuck hsmaller hrun]
          apply ih (h.grow_back hrun)
          rcases h.back.longer hrun with hnone | hlonger
          · exact Or.inr (Or.inl hnone)
          · exact Or.inr (Or.inr (by omega))
        · rw [meet_back hstuck hsmaller hrun]
          obtain ⟨hthere, hback, hlength⟩ := h.back.meets hrun
          have hshort := h.forth.rooted.short w hthere
          exact h.isShortestPath (h.forth.rooted.way w hthere) hback (by omega)

/-! ## The answer -/

/-- A path from a node to itself cannot be shorter than the node alone. -/
theorem isShortestPath_singleton (g : TypeGraph) (n : Name) : g.IsShortestPath n n [n] := by
  refine ⟨isPath_iff_way.2 .start, fun other hother => ?_⟩
  have hpos := (isPath_iff_way.1 hother).length_pos
  show 1 ≤ other.length
  omega

/-- Two searches that begin at different nodes are apart. -/
theorem Apart.init (h : source ≠ target) :
    Apart g source target 0 0 [(source, none)] [source] [(target, none)] [target] := by
  refine ⟨.init _ _, .init _ _, fun x hx => ?_⟩
  obtain rfl : source = x := by simpa [Trail.has] using hx
  simp [Trail.has, Ne.symm h]

/-- A search between nodes that answers with a shortest path, and with nothing only if there is no
    path. -/
structure FindsShortest (g : TypeGraph) (find : Name → Name → Option (List Name)) : Prop where
  shortest : ∀ source ∈ g.nodes.keys, ∀ target ∈ g.nodes.keys, ∀ path,
    find source target = some path → g.IsShortestPath source target path
  complete : ∀ source ∈ g.nodes.keys, ∀ target ∈ g.nodes.keys,
    find source target = none → ∀ path, ¬ g.IsPath source target path

/-- Between nodes, such a search answers exactly if there is a path. -/
theorem FindsShortest.exists_iff {find : Name → Name → Option (List Name)}
    (h : g.FindsShortest find) (hsource : source ∈ g.nodes.keys) (htarget : target ∈ g.nodes.keys) :
    (∃ path, find source target = some path) ↔ ∃ path, g.IsPath source target path := by
  constructor
  · rintro ⟨path, hpath⟩
    exact ⟨path, (h.shortest source hsource target htarget path hpath).toIsPath⟩
  · rintro ⟨path, hpath⟩
    cases hfind : find source target with
    | some found => exact ⟨found, rfl⟩
    | none => exact absurd hpath (h.complete source hsource target htarget hfind path)

/-- The search from both ends finds shortest paths where all ends of edges are nodes. -/
theorem findsShortest_shortestPath? (hnodes : g.EndsAreNodes) :
    g.FindsShortest g.shortestPath? := by
  have hanswer : ∀ source ∈ g.nodes.keys, ∀ target ∈ g.nodes.keys, source ≠ target →
      AnswersRightly g source target
        (g.meet (2 * g.nodes.size + 2) [(source, none)] [source] [(target, none)] [target]) := by
    intro source hsource target htarget hne
    refine answersRightly_meet hnodes hsource htarget (Apart.init hne) (Or.inr (Or.inr ?_))
    simp only [List.length_singleton]
    omega
  constructor
  · intro source hsource target htarget path hpath
    unfold shortestPath? at hpath
    by_cases hsame : source = target
    · -- A node is a path to itself, and no search is begun.
      subst hsame
      rw [if_pos rfl] at hpath
      cases hpath
      exact isShortestPath_singleton g source
    · have hmeet := hanswer source hsource target htarget hsame
      rw [if_neg hsame] at hpath
      cases hrun : g.meet (2 * g.nodes.size + 2) [(source, none)] [source] [(target, none)] [target]
        with
      | none =>
        rw [hrun] at hpath
        cases hpath
      | some found =>
        rw [hrun] at hpath hmeet
        cases hpath
        exact hmeet
  · intro source hsource target htarget hnone
    unfold shortestPath? at hnone
    by_cases hsame : source = target
    · rw [if_pos hsame] at hnone
      cases hnone
    · have hmeet := hanswer source hsource target htarget hsame
      rw [if_neg hsame] at hnone
      cases hrun : g.meet (2 * g.nodes.size + 2) [(source, none)] [source] [(target, none)] [target]
        with
      | none =>
        rw [hrun] at hmeet
        exact hmeet
      | some found =>
        rw [hrun] at hnone
        cases hnone

end TypeGraph

end SchemaView
