import Mathlib.Data.List.Chain
import SchemaView.Proofs.ReadBack
import SchemaView.Proofs.ReadTrees

/-!
# Documents that survive printing

Printing does not always keep a document apart from another one: a declaration without its block in
front of a query that starts with its braces is printed as if it had the braces of the query. Where
this does not happen, reading inverts printing.

`Reader.Always` and `Reader.Yields` say what all answers of a reader have in common, from any
lexemes or from those behind given tokens. By them a declaration in front of braces is read with a
block.

## Key results

- `parse_render`: what is printed is read again
- `parse_render_iff`: the lists of definitions for which this is so
-/

namespace SchemaView.Sdl

/-- Whether a definition could have a block and has none. -/
def Definition.lacksBlock : Definition → Bool
  | type t | typeExtension t => t.body.lacksBlock
  | schemaExtension d => d.roots.isEmpty
  | _ => false

/-- Whether a definition is a query that starts with its braces. -/
def Definition.isShorthand : Definition → Bool
  | operation d => d.isShorthand
  | _ => false

/-- No query starts with its braces behind a definition that lacks its block. -/
def Legible (definitions : List Definition) : Prop :=
  List.IsChain (fun x y : Definition => x.lacksBlock = true → y.isShorthand = false) definitions

namespace Reader

variable {rest : List Token}

theorem reads_definition {x : Definition} (h : x.WellFormed) (hrest : Concluded rest)
    (hblock : x.lacksBlock = true → Avoids (.punctuator .braceL) rest) :
    definition.Reads (x.tokens ++ rest) x rest := by
  cases x with
  | schema d => exact reads_schema h.1 h.2 hrest
  | schemaExtension d =>
    exact reads_schemaExtension h.1 h.2.1 h.2.2 hrest fun hnone =>
      hblock (by simp [Definition.lacksBlock, hnone])
  | type t => exact reads_typeDefinition h hrest hblock
  | typeExtension t => exact reads_typeExtension h.1 h.2.1 h.2.2 hrest hblock
  | directive d => exact reads_directiveDefinition h hrest
  | operation d => exact reads_operation h rest
  | fragment d => exact reads_fragment h rest

/-- Whether definitions start with a token: a word, a description or the brace of a query. -/
def startsDefinition : Token → Bool
  | .name word => word != "implements"
  | .string _ | .blockString _ => true
  | .punctuator m => m == .braceL
  | _ => false

/-- How a definition starts: with a brace only if it is a query without its word. -/
structure Starts (x : Definition) (t : Token) : Prop where
  starts : startsDefinition t = true
  not_brace : x.isShorthand = false → t ≠ .punctuator .braceL

theorem starts_described (x : Definition) (description? : Option StringLiteral) {word : String}
    (hword : (word != "implements") = true) (behind : List Token) :
    ∃ t more, descriptionTokens description? ++ .name word :: behind = t :: more ∧ Starts x t := by
  cases description? with
  | none => exact ⟨_, _, rfl, hword, by simp⟩
  | some text =>
    refine ⟨text.token, .name word :: behind, rfl, ?_⟩
    rw [StringLiteral.token]
    split <;> exact ⟨rfl, by simp⟩

/-- A shorthand query starts with its brace. -/
theorem exists_brace {x : Definition} (h : x.WellFormed) (hshort : x.isShorthand = true) :
    ∃ more, x.tokens = .punctuator .braceL :: more := by
  cases x with
  | operation d =>
    cases hselections : h.selections with
    | mk hsome _ =>
      refine ⟨d.selections.flatMap Selection.tokens ++ [.punctuator .braceR], ?_⟩
      have hquery : d.isShorthand = true := hshort
      rw [Definition.tokens, OperationDecl.tokens, if_pos hquery, selectionTokens_of_ne_nil hsome]
      rfl
  | _ => cases hshort

theorem exists_start {x : Definition} (h : x.WellFormed) :
    ∃ t more, x.tokens = t :: more ∧ Starts x t := by
  cases x with
  | schema d => exact starts_described _ _ rfl _
  | schemaExtension d => exact starts_described _ none rfl _
  | type t => exact starts_described _ _ (by cases t.body.kind <;> rfl) _
  | typeExtension t => exact starts_described _ none rfl _
  | directive d => exact starts_described _ _ rfl _
  | fragment d => exact starts_described _ _ rfl _
  | operation d =>
    by_cases hshort : d.isShorthand = true
    · obtain ⟨more, htokens⟩ := exists_brace h hshort
      exact ⟨_, more, htokens, rfl, fun hlong => (Bool.eq_false_iff.1 hlong hshort).elim⟩
    · rw [Definition.tokens, OperationDecl.tokens, if_neg hshort, OperationDecl.frontTokens,
        List.append_assoc]
      exact starts_described _ _ (by cases d.operation <;> rfl) _

section Documents

variable {x : Definition} {xs : List Definition}

/-- What stands behind a definition is the end of the text or another definition. -/
theorem concluded_definitions (h : ∀ x ∈ xs, x.WellFormed) :
    Concluded (xs.flatMap Definition.tokens) := by
  -- Nothing that goes on with a definition starts another one.
  have hgoing : ∀ t ∈ goingOn, startsDefinition t = false := by decide
  cases xs with
  | nil => exact fun t ht heq => by revert t; decide
  | cons x xs =>
    obtain ⟨t, more, htokens, hstarts⟩ := exists_start (h x List.mem_cons_self)
    rw [List.flatMap_cons, htokens]
    rintro u hu rfl
    have hother := hgoing t hu
    rw [hstarts.starts] at hother
    cases hother

/-- A definition is not the end of the text. -/
theorem avoids_end (h : x.WellFormed) (more : List Token) :
    Avoids .endOfText (x.tokens ++ more) := by
  obtain ⟨t, behind, htokens, hstarts⟩ := exists_start h
  rw [htokens]
  rintro rfl
  cases hstarts.starts

/-- Behind a definition that lacks its block no brace follows. -/
theorem avoids_brace (h : ∀ x ∈ xs, x.WellFormed) (hlegible : Legible (x :: xs))
    (hlacks : x.lacksBlock = true) :
    Avoids (.punctuator .braceL) (xs.flatMap Definition.tokens) := by
  cases xs with
  | nil => exact fun heq => by cases heq
  | cons y ys =>
    obtain ⟨t, more, htokens, hstarts⟩ := exists_start (h y List.mem_cons_self)
    rw [List.flatMap_cons, htokens]
    exact hstarts.not_brace ((List.isChain_cons_cons.1 hlegible).1 hlacks)

theorem reads_moreDefinitions (h : ∀ x ∈ xs, x.WellFormed)
    (hlegible : Legible xs) {n : Nat} (hn : xs.length < n) :
    (moreDefinitions n).Reads (xs.flatMap Definition.tokens) xs [] := by
  induction xs generalizing n with
  | nil =>
    cases n with
    | zero => exact absurd hn (Nat.not_lt_zero _)
    | succ n => exact meets_peek_bind fun p => meets_if_pos rfl (reads_pure [] [])
  | cons x xs ih =>
    cases n with
    | zero => exact absurd hn (Nat.not_lt_zero _)
    | succ n =>
      have hxs : ∀ y ∈ xs, y.WellFormed := fun y hy => h y (List.mem_cons_of_mem _ hy)
      have hx := reads_definition (h x List.mem_cons_self) (concluded_definitions hxs)
        (avoids_brace hxs hlegible)
      have hmore := ih hxs hlegible.tail (Nat.lt_of_succ_lt_succ hn)
      rw [List.flatMap_cons]
      exact meets_peek_bind fun p => meets_if_neg (avoids_end (h x List.mem_cons_self) _)
        (hx.bind (hmore.bind (reads_pure (x :: xs) [])))

theorem reads_definitions (hsome : xs ≠ []) (h : ∀ x ∈ xs, x.WellFormed)
    (hlegible : Legible xs) : definitions.Reads (xs.flatMap Definition.tokens) xs [] := by
  obtain ⟨x, xs, rfl⟩ := List.exists_cons_of_ne_nil hsome
  have hxs : ∀ y ∈ xs, y.WellFormed := fun y hy => h y (List.mem_cons_of_mem _ hy)
  have hx := reads_definition (h x List.mem_cons_self) (concluded_definitions hxs)
    (avoids_brace hxs hlegible)
  have hlength : xs.length ≤ (xs.flatMap Definition.tokens).length := by
    refine length_le_length_flatMap fun y hy => ?_
    obtain ⟨t, more, htokens, -⟩ := exists_start (hxs y hy)
    rw [htokens]
    exact List.cons_ne_nil t more
  rw [List.flatMap_cons]
  refine hx.bind (meets_bound_bind fun n hn => ?_)
  exact (reads_moreDefinitions hxs hlegible.tail (by omega)).bind (reads_pure (x :: xs) [])

end Documents

end Reader

/-- Well-formed definitions are read as they were printed. -/
theorem parse_render {definitions : List Definition} (hsome : definitions ≠ [])
    (h : ∀ x ∈ definitions, x.WellFormed) (hlegible : Legible definitions) :
    parse (render definitions) = .ok definitions := by
  obtain ⟨s, hread, -⟩ := Reader.reads_definitions hsome h hlegible _
    (Lexemes.holds_ofText (scans_render h))
  rw [parse]
  have hrun : Reader.definitions.run (Lexemes.ofText (render definitions)) =
      .ok (definitions, s) := hread
  rw [hrun]
  rfl

/-! ## Where a brace stands behind a missing block -/

namespace Reader

variable {α β : Type} {r : Reader α} {before : List Token} {P : α → Prop} {Q : β → Prop}

/-- Whatever a reader answers where given tokens are left has a property. -/
abbrev Yields (r : Reader α) (before : List Token) (P : α → Prop) : Prop :=
  r.Meets before fun answer => ∀ a s', answer = .ok (a, s') → P a

/-- Whatever a reader answers has a property. -/
def Always (r : Reader α) (P : α → Prop) : Prop := ∀ s a s', r s = .ok (a, s') → P a

theorem always_pure {a : α} (h : P a) : (pure a : Reader α).Always P := by
  rintro s b s' hb
  cases hb
  exact h

theorem Always.bind {f : α → Reader β} (hf : ∀ a, (f a).Always Q) : (r >>= f).Always Q := by
  intro s b s' h
  have hsteps : ((r s) >>= fun p => f p.1 p.2) = .ok (b, s') := h
  obtain ⟨⟨a, t⟩, -, hb⟩ := bind_eq_ok_iff.1 hsteps
  exact hf a t b s' hb

theorem always_unexpectedHere : (unexpectedHere : Reader α).Always P := by
  refine Always.bind fun lexeme s a s' h => ?_
  cases h

theorem Always.ite {c : Prop} [Decidable c] {t : Reader α} (hr : r.Always P) (ht : t.Always P) :
    (if c then r else t).Always P := by
  split
  · exact hr
  · exact ht

theorem Always.yields (h : r.Always P) (before : List Token) : r.Yields before P :=
  fun s _ => h s

theorem Yields.bind {f : α → Reader β} (hr : r.Yields before P)
    (hf : ∀ a, P a → (f a).Always Q) : (r >>= f).Yields before Q := by
  intro s hs b s' h
  have hsteps : ((r s) >>= fun p => f p.1 p.2) = .ok (b, s') := h
  obtain ⟨⟨a, t⟩, ha, hb⟩ := bind_eq_ok_iff.1 hsteps
  exact hf a (hr s hs a t ha) t b s' hb

/-- Where the opening mark stands there are elements. -/
theorem yields_optionalBetween (opening close : Punctuator) (element : Reader α)
    (more : List Token) :
    (optionalBetween opening close element).Yields (.punctuator opening :: more) (· ≠ []) := by
  have hsome : (someBetween opening close element).Always (· ≠ []) :=
    .bind fun _ => .bind fun x => .bind fun _ => .bind fun xs => always_pure (List.cons_ne_nil x xs)
  exact (reads_atMark opening more).bind (hsome.yields _)

theorem concluded_brace (more : List Token) : Concluded (.punctuator .braceL :: more) := by
  simp [Concluded, goingOn]

theorem yields_typeDecl {t : TypeDecl} (h : t.WellFormed) (hlacks : t.body.lacksBlock = true)
    (more : List Token) :
    (typeDecl t.body.kind t.description).Yields
      (.name t.name ::
        (t.body.tokens (directiveTokens t.directives) ++ .punctuator .braceL :: more))
      fun u => u.body.lacksBlock = false := by
  have hbrace := concluded_brace more
  obtain ⟨text, key, dirs, body⟩ := t
  have hdirs : ConstDirectives dirs := h.directives
  refine (reads_name key _).bind ?_
  cases body with
  | scalar => cases hlacks
  | union => cases hlacks
  | object parents fs =>
    obtain rfl := List.isEmpty_iff.1 hlacks
    simp only [TypeBody.tokens, List.append_assoc]
    refine (hbrace.reads_interfaces parents dirs).bind ?_
    refine (hbrace.reads_constDirectives hdirs).bind ?_
    exact (yields_optionalBetween _ _ _ more).bind fun fs hfs =>
      always_pure (by simpa [TypeBody.lacksBlock] using hfs)
  | interface parents fs =>
    obtain rfl := List.isEmpty_iff.1 hlacks
    simp only [TypeBody.tokens, List.append_assoc]
    refine (hbrace.reads_interfaces parents dirs).bind ?_
    refine (hbrace.reads_constDirectives hdirs).bind ?_
    exact (yields_optionalBetween _ _ _ more).bind fun fs hfs =>
      always_pure (by simpa [TypeBody.lacksBlock] using hfs)
  | enum values =>
    obtain rfl := List.isEmpty_iff.1 hlacks
    simp only [TypeBody.tokens, List.append_assoc]
    refine (hbrace.reads_constDirectives hdirs).bind ?_
    exact (yields_optionalBetween _ _ _ more).bind fun vs hvs =>
      always_pure (by simpa [TypeBody.lacksBlock] using hvs)
  | inputObject fs =>
    obtain rfl := List.isEmpty_iff.1 hlacks
    simp only [TypeBody.tokens, List.append_assoc]
    refine (hbrace.reads_constDirectives hdirs).bind ?_
    exact (yields_optionalBetween _ _ _ more).bind fun fs hfs =>
      always_pure (by simpa [TypeBody.lacksBlock] using hfs)

/-- A definition that lacks its block takes a brace that stands behind it. -/
theorem yields_definition {x : Definition} (h : x.WellFormed) (hlacks : x.lacksBlock = true)
    (more : List Token) :
    definition.Yields (x.tokens ++ .punctuator .braceL :: more) fun y => y.lacksBlock = false := by
  cases x with
  | schema | directive | operation | fragment => cases hlacks
  | type t =>
    have hdecl := yields_typeDecl h hlacks more
    simp only [Definition.tokens, TypeDecl.tokens, List.append_assoc, List.cons_append]
    refine meets_definition _ fun lexeme => ?_
    cases hkind : t.body.kind <;> rw [hkind] at hdecl
    all_goals
      refine (reads_description _ rfl).bind ((reads_keyword _ _).bind ?_)
      exact hdecl.bind fun u hu => always_pure hu
  | typeExtension t =>
    have hdecl := yields_typeDecl h.1 hlacks more
    rw [h.2.1] at hdecl
    simp only [Definition.tokens, TypeDecl.tokens, List.cons_append]
    refine meets_definition none fun lexeme => meets_peekSecond_bind fun p => ?_
    cases hkind : t.body.kind <;> rw [hkind] at hdecl
    all_goals
      refine (reads_keyword _ _).bind ((reads_keyword _ _).bind (hdecl.bind fun u hu => ?_))
      exact always_unexpectedHere.ite (always_pure hu)
  | schemaExtension d =>
    obtain ⟨text, dirs, roots⟩ := d
    obtain rfl := List.isEmpty_iff.1 hlacks
    have hdirs : ConstDirectives dirs := h.1.directives
    simp only [Definition.tokens, SchemaDecl.tokens, List.append_assoc, List.cons_append]
    refine meets_definition none fun lexeme => meets_peekSecond_bind fun p => ?_
    refine (reads_keyword _ _).bind ((reads_keyword _ _).bind ?_)
    refine ((concluded_brace more).reads_constDirectives hdirs).bind ?_
    refine (yields_optionalBetween _ _ _ more).bind fun rs hrs => ?_
    exact always_unexpectedHere.ite (always_pure (by simpa [Definition.lacksBlock] using hrs))

/-- If a definition is read as it was printed, it does not lack a block in front of a brace. -/
theorem yields_legible {x : Definition} {xs : List Definition} (h : ∀ y ∈ x :: xs, y.WellFormed)
    {behind : Definition → Reader (List Definition)}
    (hbehind : (behind x).Yields (xs.flatMap Definition.tokens) fun zs => zs = x :: xs → Legible xs)
    (hhead : ∀ y, (behind y).Always fun zs => ∃ ys, zs = y :: ys) :
    (definition >>= behind).Yields ((x :: xs).flatMap Definition.tokens) fun zs =>
      zs = x :: xs → Legible (x :: xs) := by
  have hx := h x List.mem_cons_self
  have hxs : ∀ y ∈ xs, y.WellFormed := fun y hy => h y (List.mem_cons_of_mem _ hy)
  rw [List.flatMap_cons]
  by_cases hclear : x.lacksBlock = true →
      Avoids (.punctuator .braceL) (xs.flatMap Definition.tokens)
  · -- Without a brace the definition is read as it was printed, and so are those behind it.
    have hread := (reads_definition hx (concluded_definitions hxs) hclear).bind hbehind
    intro s hs zs s' hzs hsame
    have hlegible := hread s hs zs s' hzs hsame
    cases xs with
    | nil => exact List.isChain_singleton x
    | cons y ys =>
      refine List.isChain_cons_cons.2 ⟨fun hlacks => Bool.eq_false_iff.2 fun hshort => ?_, hlegible⟩
      obtain ⟨more, htokens⟩ := exists_brace (hxs y List.mem_cons_self) hshort
      have havoids := hclear hlacks
      rw [List.flatMap_cons, htokens] at havoids
      exact havoids rfl
  · -- The brace goes to the definition, which then has a block.
    obtain ⟨hlacks, hbrace⟩ := Classical.not_imp.1 hclear
    obtain ⟨more, htokens⟩ := exists_of_not_avoids (by simp) hbrace
    rw [htokens]
    have hblock : (definition >>= behind).Yields (x.tokens ++ .punctuator .braceL :: more)
        fun zs => ∃ y ys, zs = y :: ys ∧ y.lacksBlock = false :=
      (yields_definition hx hlacks more).bind fun y hy s zs s' hzs => by
        obtain ⟨ys, hys⟩ := hhead y s zs s' hzs
        exact ⟨y, ys, hys, hy⟩
    intro s hs zs s' hzs hsame
    obtain ⟨y, ys, hzs, hy⟩ := hblock s hs zs s' hzs
    rw [hsame, List.cons.injEq] at hzs
    rw [← hzs.1, hlacks] at hy
    cases hy

theorem yields_moreDefinitions {xs : List Definition} (h : ∀ x ∈ xs, x.WellFormed) (n : Nat) :
    (moreDefinitions n).Yields (xs.flatMap Definition.tokens) fun zs => zs = xs → Legible xs := by
  induction xs generalizing n with
  | nil => exact fun _ _ _ _ _ _ => List.isChain_nil
  | cons x xs ih =>
    cases n with
    | zero => exact always_unexpectedHere.yields _
    | succ n =>
      have hmore := ih (fun y hy => h y (List.mem_cons_of_mem _ hy)) n
      refine meets_peek_bind fun p => ?_
      refine meets_if_neg (avoids_end (h x List.mem_cons_self) _) (yields_legible h ?_ fun y => ?_)
      · exact hmore.bind fun ys hys => always_pure fun hsame => hys (List.cons.inj hsame).2
      · exact .bind fun ys => always_pure ⟨ys, rfl⟩

theorem yields_definitions {xs : List Definition} (hsome : xs ≠ []) (h : ∀ x ∈ xs, x.WellFormed) :
    definitions.Yields (xs.flatMap Definition.tokens) fun zs => zs = xs → Legible xs := by
  obtain ⟨x, xs, rfl⟩ := List.exists_cons_of_ne_nil hsome
  have hxs : ∀ y ∈ xs, y.WellFormed := fun y hy => h y (List.mem_cons_of_mem _ hy)
  refine yields_legible h (meets_bound_bind fun n _ => ?_) fun y => ?_
  · exact (yields_moreDefinitions hxs n).bind fun ys hys =>
      always_pure fun hsame => hys (List.cons.inj hsame).2
  · exact .bind fun n => .bind fun ys => always_pure ⟨ys, rfl⟩

end Reader

/-- The documents that are read as they were printed. -/
theorem parse_render_iff {definitions : List Definition} :
    parse (render definitions) = .ok definitions ↔
      definitions ≠ [] ∧ (∀ x ∈ definitions, x.WellFormed) ∧ Legible definitions := by
  refine ⟨fun hparse => ?_, fun h => parse_render h.1 h.2.1 h.2.2⟩
  obtain ⟨hsome, hwell⟩ := wellFormed_of_parse hparse
  refine ⟨hsome, hwell, ?_⟩
  have hholds := Lexemes.holds_ofText (scans_render hwell)
  rw [parse] at hparse
  cases hread : Reader.definitions.run (Lexemes.ofText (render definitions)) with
  | error fault =>
    rw [hread] at hparse
    cases hparse
  | ok answer =>
    rw [hread] at hparse
    have hsame : answer.1 = definitions := Except.ok.inj hparse
    exact Reader.yields_definitions hsome hwell _ hholds answer.1 answer.2 hread hsame

end SchemaView.Sdl
