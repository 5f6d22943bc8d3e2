import SchemaView.Proofs.Answers
import SchemaView.Proofs.ScanNames
import SchemaView.Proofs.WellFormed

/-!
# What is read is well-formed

A reader takes names, numbers and strings from the lexemes of a text and never makes one up.
`Reader.Gives` says of a reader that its answers have a property if the lexemes were scanned, and
that it leaves scanned lexemes. The property is kept by everything that readers are put together by,
so it is shown for them one after the other, in the order of the grammar. Where only lexemes are
left and nothing is said about the answer, `Reader.Keeps` stands for it.

## Key results

- `Gives.bind`, `Gives.ite`, `gives_repeatUntil`: how readers are put together
- `gives_value`, `gives_selectionSet`, `gives_typeDecl`: trees of each kind
- `wellFormed_of_parse`: the definitions of a text that was read
-/

namespace SchemaView.Sdl

/-- A reader gives answers with a property: from scanned lexemes, if it answers at all, and then it
    leaves scanned lexemes. -/
def Reader.Gives {α : Type} (r : Reader α) (Q : α → Prop) : Prop :=
  ∀ s, s.Scanned → ∀ a s', r s = .ok (a, s') → Q a ∧ s'.Scanned

/-- A reader that leaves scanned lexemes, whatever it answers. -/
abbrev Reader.Keeps {α : Type} (r : Reader α) : Prop := r.Gives fun _ => True

namespace Reader

variable {α β : Type} {Q : α → Prop} {R : β → Prop}

theorem Gives.bind {r : Reader α} {f : α → Reader β} (hr : r.Gives Q)
    (hf : ∀ a, Q a → (f a).Gives R) : (r >>= f).Gives R := by
  intro s hs b s' h
  have hsteps : ((r s) >>= fun p => f p.1 p.2) = .ok (b, s') := h
  obtain ⟨⟨a, t⟩, ha, hb⟩ := bind_eq_ok_iff.1 hsteps
  obtain ⟨hQ, ht⟩ := hr s hs a t ha
  exact hf a hQ t ht b s' hb

theorem gives_pure {a : α} (h : Q a) : (pure a : Reader α).Gives Q := by
  intro s hs b s' hb
  cases hb
  exact ⟨h, hs⟩

theorem gives_fail (cause : Lexeme → Cause) (lexeme : Lexeme) :
    (fail cause lexeme : Reader α).Gives Q := by
  intro s hs b s' hb
  cases hb

theorem gives_unexpected (lexeme : Lexeme) : (unexpected lexeme : Reader α).Gives Q :=
  gives_fail _ lexeme

theorem Gives.imp {r : Reader α} {P : α → Prop} (hr : r.Gives P) (h : ∀ a, P a → Q a) :
    r.Gives Q := by
  intro s hs a s' ha
  obtain ⟨hP, hs'⟩ := hr s hs a s' ha
  exact ⟨h a hP, hs'⟩

theorem keeps_pure (a : α) : (pure a : Reader α).Keeps := gives_pure trivial

theorem Gives.map {r : Reader α} {f : α → β} (hr : r.Gives Q) (h : ∀ a, Q a → R (f a)) :
    (f <$> r).Gives R :=
  hr.bind fun a ha => gives_pure (h a ha)

theorem Gives.discard {r : Reader α} (hr : r.Gives Q) : (discard r : Reader Unit).Keeps :=
  hr.bind fun _ _ => keeps_pure ()

theorem Gives.ite {c : Prop} [Decidable c] {r t : Reader α} (hr : r.Gives Q) (ht : t.Gives Q) :
    (if c then r else t).Gives Q := by
  split
  · exact hr
  · exact ht

theorem gives_peek : peek.Gives fun lexeme => lexeme.token.Scanned := by
  intro s hs lexeme s' h
  rw [peek] at h
  split at h
  · rename_i hitems
    cases h
    exact ⟨hs _ (by rw [hitems]; exact List.mem_cons_self), hs⟩
  · cases h
    exact ⟨trivial, hs⟩
  · cases h

theorem keeps_advance : advance.Keeps := by
  intro s hs lexeme s' h
  rw [advance] at h
  split at h
  · cases h
    exact ⟨trivial, hs⟩
  · cases h
  · cases h
  · cases h
    exact ⟨trivial, fun l hl => hs l (List.mem_of_mem_tail hl)⟩

theorem keeps_peekSecond : peekSecond.Keeps := by
  intro s hs lexeme s' h
  rw [peekSecond] at h
  split at h <;> cases h
  · exact ⟨trivial, hs⟩
  · exact ⟨trivial, hs⟩

theorem keeps_bound : bound.Keeps := by
  intro s hs n s' h
  cases h
  exact ⟨trivial, hs⟩

theorem gives_unexpectedHere : (unexpectedHere : Reader α).Gives Q :=
  gives_peek.bind fun lexeme _ => gives_unexpected lexeme

theorem keeps_atMark (m : Punctuator) : (atMark m).Keeps :=
  gives_peek.bind fun _ _ => keeps_pure _

theorem keeps_mark (m : Punctuator) : (mark m).Keeps := by
  refine gives_peek.bind fun lexeme _ => ?_
  split
  · exact keeps_advance.discard
  · exact gives_fail _ _

theorem keeps_optionalMark (m : Punctuator) : (optionalMark m).Keeps := by
  refine (keeps_atMark m).bind fun here _ => ?_
  split
  · exact keeps_advance.discard.bind fun _ _ => keeps_pure _
  · exact keeps_pure _

theorem keeps_keyword (word : String) : (keyword word).Keeps := by
  refine gives_peek.bind fun lexeme _ => ?_
  split
  · exact keeps_advance.discard
  · exact gives_fail _ _

theorem keeps_optionalKeyword (word : String) : (optionalKeyword word).Keeps := by
  refine gives_peek.bind fun lexeme _ => ?_
  split
  · exact keeps_advance.discard.bind fun _ _ => keeps_pure _
  · exact keeps_pure _

theorem gives_name : name.Gives IsNameText := by
  refine gives_peek.bind fun lexeme hlexeme => ?_
  split
  · rename_i text htoken
    rw [htoken] at hlexeme
    exact keeps_advance.discard.bind fun _ _ => gives_pure hlexeme
  · exact gives_fail _ _

/-- A reader that gives answers with a property where a given lexeme comes next. -/
def GivesAt (lexeme : Lexeme) (r : Reader α) (Q : α → Prop) : Prop :=
  ∀ s, s.Scanned → peek s = .ok (lexeme, s) → ∀ a s', r s = .ok (a, s') → Q a ∧ s'.Scanned

theorem Gives.givesAt {r : Reader α} (hr : r.Gives Q) (lexeme : Lexeme) : r.GivesAt lexeme Q :=
  fun s hs _ => hr s hs

theorem GivesAt.imp {lexeme : Lexeme} {r : Reader α} {P : α → Prop} (hr : r.GivesAt lexeme P)
    (h : ∀ a, P a → Q a) : r.GivesAt lexeme Q := by
  intro s hs hpeek a s' ha
  obtain ⟨hP, hs'⟩ := hr s hs hpeek a s' ha
  exact ⟨h a hP, hs'⟩

theorem GivesAt.bind {lexeme : Lexeme} {r : Reader α} {f : α → Reader β}
    (hr : r.GivesAt lexeme Q) (hf : ∀ a, Q a → (f a).Gives R) : (r >>= f).GivesAt lexeme R := by
  intro s hs hpeek b s' h
  have hsteps : ((r s) >>= fun p => f p.1 p.2) = .ok (b, s') := h
  obtain ⟨⟨a, t⟩, ha, hb⟩ := bind_eq_ok_iff.1 hsteps
  obtain ⟨hQ, ht⟩ := hr s hs hpeek a t ha
  exact hf a hQ t ht b s' hb

/-- The current lexeme is looked at without stepping over it. -/
theorem eq_of_peek {s t : Lexemes} {lexeme : Lexeme} (h : peek s = .ok (lexeme, t)) : t = s := by
  rw [peek] at h
  split at h <;> cases h <;> rfl

/-- What follows a look at the current lexeme finds it in its place. -/
theorem Gives.peek_bind {f : Lexeme → Reader α}
    (h : ∀ lexeme, (f lexeme).GivesAt lexeme Q) : (peek >>= f).Gives Q := by
  intro s hs a s' ha
  have hsteps : ((peek s) >>= fun p => f p.1 p.2) = .ok (a, s') := ha
  obtain ⟨⟨lexeme, t⟩, hpeek, hrest⟩ := bind_eq_ok_iff.1 hsteps
  obtain rfl := eq_of_peek hpeek
  exact h lexeme t hs hpeek a s' hrest

theorem givesAt_name (lexeme : Lexeme) :
    name.GivesAt lexeme fun n => IsNameText n ∧ lexeme.token = .name n := by
  intro s hs hpeek n s' h
  obtain ⟨hname, hs'⟩ := gives_name s hs n s' h
  refine ⟨⟨hname, ?_⟩, hs'⟩
  simp only [name, bind, StateT.bind, Except.bind, hpeek] at h
  cases htoken : lexeme.token with
  | name text =>
    rw [htoken] at h
    obtain ⟨q, -, hq⟩ := bind_eq_ok_iff.1 h
    cases hq
    rfl
  | _ =>
    rw [htoken] at h
    cases h

theorem gives_repeatUntil {element : Reader α} (h : element.Gives Q) (close : Punctuator)
    (n : Nat) : (repeatUntil close element n).Gives fun xs => ∀ x ∈ xs, Q x := by
  induction n with
  | zero => exact gives_unexpectedHere
  | succ n ih =>
    refine (keeps_optionalMark close).bind fun here _ => ?_
    split
    · exact gives_pure (List.forall_mem_nil Q)
    · exact h.bind fun x hx => ih.bind fun xs hxs =>
        gives_pure (List.forall_mem_cons.2 ⟨hx, hxs⟩)

theorem gives_between {element : Reader α} (h : element.Gives Q) (opening close : Punctuator) :
    (between opening close element).Gives fun xs => ∀ x ∈ xs, Q x :=
  (keeps_mark opening).bind fun _ _ => keeps_bound.bind fun n _ => gives_repeatUntil h close n

theorem gives_someBetween {element : Reader α} (h : element.Gives Q)
    (opening close : Punctuator) :
    (someBetween opening close element).Gives fun xs => xs ≠ [] ∧ ∀ x ∈ xs, Q x := by
  refine (keeps_mark opening).bind fun _ _ => h.bind fun x hx => keeps_bound.bind fun n _ => ?_
  exact (gives_repeatUntil h close n).bind fun xs hxs =>
    gives_pure ⟨List.cons_ne_nil x xs, List.forall_mem_cons.2 ⟨hx, hxs⟩⟩

theorem gives_optionalBetween {element : Reader α} (h : element.Gives Q)
    (opening close : Punctuator) :
    (optionalBetween opening close element).Gives fun xs => ∀ x ∈ xs, Q x := by
  refine (keeps_atMark opening).bind fun here _ => ?_
  split
  · exact (gives_someBetween h opening close).imp fun _ hxs => hxs.2
  · exact gives_pure (List.forall_mem_nil Q)

theorem gives_moreSeparated {element : Reader α} (h : element.Gives Q) (separator : Punctuator)
    (n : Nat) : (moreSeparated separator element n).Gives fun xs => ∀ x ∈ xs, Q x := by
  induction n with
  | zero => exact gives_unexpectedHere
  | succ n ih =>
    refine (keeps_optionalMark separator).bind fun here _ => ?_
    split
    · exact h.bind fun x hx => ih.bind fun xs hxs =>
        gives_pure (List.forall_mem_cons.2 ⟨hx, hxs⟩)
    · exact gives_pure (List.forall_mem_nil Q)

theorem gives_separated {element : Reader α} (h : element.Gives Q) (separator : Punctuator) :
    (separated separator element).Gives fun xs => xs ≠ [] ∧ ∀ x ∈ xs, Q x := by
  refine (keeps_optionalMark separator).discard.bind fun _ _ => h.bind fun x hx => ?_
  exact keeps_bound.bind fun n _ => (gives_moreSeparated h separator n).bind fun xs hxs =>
    gives_pure ⟨List.cons_ne_nil x xs, List.forall_mem_cons.2 ⟨hx, hxs⟩⟩

/-! ## Types, values and directives -/

variable {isConst : Bool} {depth : Nat}

theorem gives_typeRef (depth : Nat) : (typeRef depth).Gives (TypeRef.WellFormed depth) := by
  have hnamed : ∀ depth, (do nonNullMark (.named (← name)) : Reader TypeRef).Gives
      (TypeRef.WellFormed depth) := by
    intro depth
    refine gives_name.bind fun text htext => (keeps_optionalMark .bang).bind fun here _ => ?_
    exact .ite (gives_pure (.nonNullNamed htext)) (gives_pure (.named htext))
  induction depth with
  | zero =>
    refine (keeps_optionalMark .bracketL).bind fun here _ => .ite ?_ (hnamed 0)
    exact gives_peek.bind fun _ _ => gives_fail _ _
  | succ depth ih =>
    refine (keeps_optionalMark .bracketL).bind fun here _ => .ite ?_ (hnamed (depth + 1))
    refine ih.bind fun item hitem => (keeps_mark _).bind fun _ _ => ?_
    refine (keeps_optionalMark .bang).bind fun here _ => ?_
    exact .ite (gives_pure (.nonNullList hitem)) (gives_pure (.list hitem))

theorem gives_variableRef (isConst : Bool) (depth : Nat) :
    (variableRef isConst).Gives (Value.WellFormed isConst depth) := by
  unfold variableRef
  cases isConst with
  | true =>
    refine keeps_advance.bind fun dollar _ => gives_peek.bind fun lexeme _ => ?_
    split
    · exact gives_fail _ _
    · exact gives_unexpected _
  | false =>
    exact (keeps_mark _).bind fun _ _ => gives_name.bind fun _ hname =>
      gives_pure (.variable rfl hname)

/-- A word that is a name is well-formed as a value. -/
theorem wellFormed_wordValue {word : String} (h : IsNameText word) :
    (wordValue word).WellFormed isConst depth := by
  by_cases hword : wordValue word = .enum word
  · rw [hword]
    exact .enum h hword
  · unfold wordValue at hword ⊢
    split
    · exact .boolean true
    · exact .boolean false
    · exact .null
    · simp_all

theorem gives_plainValue (isConst : Bool) (depth : Nat) :
    (plainValue isConst).Gives (Value.WellFormed isConst depth) := by
  refine gives_peek.bind fun lexeme hlexeme => ?_
  split
  · exact gives_variableRef isConst depth
  · rename_i htoken
    rw [htoken] at hlexeme
    exact keeps_advance.discard.bind fun _ _ => gives_pure (wellFormed_wordValue hlexeme)
  · rename_i htoken
    rw [htoken] at hlexeme
    obtain ⟨m, hm⟩ := hlexeme
    exact keeps_advance.discard.bind fun _ _ => gives_pure (.int m hm)
  · rename_i htoken
    rw [htoken] at hlexeme
    obtain ⟨m, hm⟩ := hlexeme
    exact keeps_advance.discard.bind fun _ _ => gives_pure (.float m hm)
  · exact keeps_advance.discard.bind fun _ _ => gives_pure (.string fun h => nomatch h)
  · rename_i htoken
    rw [htoken] at hlexeme
    exact keeps_advance.discard.bind fun _ _ => gives_pure (.string fun _ => hlexeme)
  · exact gives_unexpected _

theorem gives_value (isConst : Bool) (depth : Nat) :
    (value isConst depth).Gives (Value.WellFormed isConst depth) := by
  induction depth with
  | zero =>
    refine gives_peek.bind fun lexeme _ => ?_
    split
    · exact gives_fail _ _
    · exact gives_fail _ _
    · exact gives_plainValue isConst 0
  | succ depth ih =>
    have hfield : (objectField (value isConst depth)).Gives
        fun f => IsNameText f.1 ∧ f.2.WellFormed isConst depth :=
      gives_name.bind fun _ hkey => (keeps_mark _).bind fun _ _ => ih.bind fun _ hvalue =>
        gives_pure ⟨hkey, hvalue⟩
    refine gives_peek.bind fun lexeme _ => ?_
    split
    · exact (gives_between ih _ _).bind fun _ hitems => gives_pure (.list hitems)
    · exact (gives_between hfield _ _).bind fun _ hfields =>
        gives_pure (.object (fun f hf => (hfields f hf).1) fun f hf => (hfields f hf).2)
    · exact gives_plainValue isConst (depth + 1)

theorem gives_arguments (isConst : Bool) (depth : Nat) :
    (arguments isConst depth).Gives fun xs => ∀ a ∈ xs, a.WellFormed isConst depth := by
  have hargument : (argument isConst depth).Gives (Argument.WellFormed isConst depth) :=
    gives_name.bind fun _ hkey => (keeps_mark _).bind fun _ _ =>
      (gives_value isConst depth).bind fun _ hvalue => gives_pure ⟨hkey, hvalue⟩
  exact gives_optionalBetween hargument _ _

theorem gives_directives (isConst : Bool) (depth : Nat) :
    (directives isConst depth).Gives fun xs => ∀ d ∈ xs, d.WellFormed isConst depth := by
  have hdirective : (directive isConst depth).Gives (Directive.WellFormed isConst depth) :=
    (keeps_mark _).bind fun _ _ => gives_name.bind fun _ hkey =>
      (gives_arguments isConst depth).bind fun _ harguments => gives_pure ⟨hkey, harguments⟩
  refine keeps_bound.bind fun n _ => ?_
  induction n with
  | zero => exact gives_unexpectedHere
  | succ n ih =>
    refine (keeps_atMark _).bind fun here _ => .ite ?_ (gives_pure (List.forall_mem_nil _))
    exact hdirective.bind fun x hx => ih.bind fun xs hxs =>
      gives_pure (List.forall_mem_cons.2 ⟨hx, hxs⟩)

theorem gives_constDirectives : constDirectives.Gives ConstDirectives :=
  gives_directives true maxDepth

theorem gives_description : description.Gives fun d => ∀ t ∈ d, t.WellFormed := by
  refine gives_peek.bind fun lexeme hlexeme => ?_
  split
  · exact keeps_advance.discard.bind fun _ _ => gives_pure fun t ht => by
      cases ht
      exact fun h => nomatch h
  · rename_i htoken
    rw [htoken] at hlexeme
    exact keeps_advance.discard.bind fun _ _ => gives_pure fun t ht => by
      cases ht
      exact fun _ => hlexeme
  · exact gives_pure fun t ht => nomatch ht

theorem gives_defaultValue :
    defaultValue.Gives fun d => ∀ x ∈ d, x.WellFormed true maxDepth := by
  refine (keeps_optionalMark _).bind fun here _ => .ite ?_ (gives_pure fun _ h => nomatch h)
  exact (gives_value true maxDepth).bind fun x hx => gives_pure fun y hy => by
    cases hy
    exact hx

/-! ## Operations and fragments -/

theorem gives_fragmentName : fragmentName.Gives fun n => IsNameText n ∧ n ≠ "on" := by
  refine .peek_bind fun lexeme => ?_
  split
  · exact (gives_unexpected _).givesAt _
  · rename_i hon
    refine (givesAt_name lexeme).imp fun n h => ⟨h.1, ?_⟩
    rintro rfl
    exact hon (by rw [h.2, Token.value?])

theorem gives_selection (depth : Nat) {set : Reader (List Selection)}
    (hset : set.Gives (SelectionSet depth)) :
    (selection depth set).Gives (Selection.WellFormed depth) := by
  have hdirectives := gives_directives false depth
  -- What is read of a field behind its names, and of an inline fragment behind its condition.
  have hfield : ∀ responseName key, (∀ n ∈ responseName, IsNameText n) → IsNameText key → (do
      let args ← arguments false depth
      let dirs ← directives false depth
      let selections ← if ← atMark .braceL then set else pure []
      pure (.field responseName key args dirs selections) : Reader Selection).Gives
        (Selection.WellFormed depth) := by
    intro responseName key hresponse hkey
    refine (gives_arguments false depth).bind fun args hargs => ?_
    refine hdirectives.bind fun dirs hdirs => ?_
    refine (keeps_atMark _).bind fun here _ => .ite ?_ ?_
    · refine hset.bind fun selections hselections => gives_pure ?_
      obtain ⟨hsome, hall⟩ := hselections
      exact .node hresponse hkey hargs hdirs hsome hall
    · refine (gives_pure (Q := fun xs => xs = []) rfl).bind fun selections hnone => gives_pure ?_
      subst hnone
      exact .leaf hresponse hkey hargs hdirs
  have hinline : ∀ condition, (∀ n ∈ condition, IsNameText n) → (do
      let dirs ← directives false depth
      pure (.inline condition dirs (← set)) : Reader Selection).Gives
        (Selection.WellFormed depth) := by
    intro condition hcondition
    refine hdirectives.bind fun dirs hdirs => hset.bind fun selections hselections => gives_pure ?_
    obtain ⟨hsome, hall⟩ := hselections
    exact .inline hcondition hdirs hsome hall
  have hnone : ∀ n ∈ (none : Option Name), IsNameText n := fun _ h => nomatch h
  have hsome : ∀ {name : Name}, IsNameText name → ∀ n ∈ some name, IsNameText n := by
    intro name h n hn
    cases hn
    exact h
  let Named (names : Option Name × Name) : Prop :=
    (∀ n ∈ names.1, IsNameText n) ∧ IsNameText names.2
  refine (keeps_optionalMark _).bind fun spread _ => .ite ?_ ?_
  · refine (keeps_optionalKeyword _).bind fun conditional _ => gives_peek.bind fun lexeme _ => ?_
    refine .ite ?_ (.ite ?_ ?_)
    · exact gives_fragmentName.bind fun fragment hfragment => hdirectives.bind fun dirs hdirs =>
        gives_pure (.spread hfragment.1 hfragment.2 hdirs)
    · exact (gives_name.map fun _ h => hsome h).bind fun condition h => hinline condition h
    · exact (gives_pure hnone).bind fun condition h => hinline condition h
  · refine gives_name.bind fun first hfirst => ?_
    refine (keeps_optionalMark _).bind fun hasAlias _ => .ite ?_ ?_
    · refine gives_name.bind fun key hkey => ?_
      exact (gives_pure (Q := Named) ⟨hsome hfirst, hkey⟩).bind fun names h => hfield _ _ h.1 h.2
    · exact (gives_pure (Q := Named) ⟨hnone, hfirst⟩).bind fun names h => hfield _ _ h.1 h.2

theorem gives_selectionSet (depth : Nat) : (selectionSet depth).Gives (SelectionSet depth) := by
  induction depth with
  | zero => exact gives_peek.bind fun _ _ => gives_fail _ _
  | succ depth ih =>
    exact (gives_someBetween (gives_selection depth ih) _ _).imp fun _ h => .mk h.1 h.2

theorem keeps_operationWord : operationWord.Keeps := by
  refine gives_peek.bind fun lexeme _ => gives_name.bind fun word _ => ?_
  split
  · exact keeps_pure _
  · exact gives_unexpected _

theorem gives_variableDecl : variableDecl.Gives VariableDecl.WellFormed := by
  refine gives_description.bind fun _ htext => (keeps_mark _).bind fun _ _ => ?_
  refine gives_name.bind fun _ hkey => (keeps_mark _).bind fun _ _ => ?_
  refine (gives_typeRef _).bind fun _ htype => gives_defaultValue.bind fun _ hdefault => ?_
  exact gives_constDirectives.bind fun _ hdirs => gives_pure ⟨htext, hkey, htype, hdefault, hdirs⟩

theorem gives_operationDecl : operationDecl.Gives OperationDecl.WellFormed := by
  refine gives_description.bind fun text htext => keeps_operationWord.bind fun operation _ => ?_
  -- What is read behind the name, if the operation has one.
  have hrest : ∀ key, (∀ n ∈ key, IsNameText n) → (do
      let variableDecls ← optionalBetween .parenL .parenR variableDecl
      let dirs ← directives false maxDepth
      pure ⟨text, operation, key, variableDecls, dirs, ← selectionSet maxDepth⟩
        : Reader OperationDecl).Gives OperationDecl.WellFormed := fun key hkey =>
    (gives_optionalBetween gives_variableDecl _ _).bind fun _ hvariables =>
      (gives_directives _ _).bind fun _ hdirs => (gives_selectionSet _).bind fun _ hselections =>
        gives_pure ⟨htext, hkey, hvariables, hdirs, hselections⟩
  refine gives_peek.bind fun lexeme _ => ?_
  split
  · refine (gives_name.map fun n hn m hm => ?_).bind fun key hkey => hrest key hkey
    cases hm
    exact hn
  · exact (gives_pure fun n hn => nomatch hn).bind fun key hkey => hrest key hkey

theorem gives_shorthandQuery : shorthandQuery.Gives OperationDecl.WellFormed :=
  (gives_selectionSet maxDepth).bind fun _ hselections =>
    gives_pure ⟨fun _ h => (nomatch h), fun _ h => (nomatch h), List.forall_mem_nil _,
      List.forall_mem_nil _, hselections⟩

theorem gives_fragmentDecl : fragmentDecl.Gives FragmentDecl.WellFormed := by
  refine gives_description.bind fun _ htext => (keeps_keyword _).bind fun _ _ => ?_
  refine gives_fragmentName.bind fun _ hkey => (keeps_keyword _).bind fun _ _ => ?_
  refine gives_name.bind fun _ htype => (gives_directives _ _).bind fun _ hdirs => ?_
  exact (gives_selectionSet _).bind fun _ hselections =>
    gives_pure ⟨htext, hkey.1, hkey.2, htype, hdirs, hselections⟩

/-! ## Definitions of the type system -/

theorem gives_root : root.Gives fun r => IsNameText r.2 :=
  keeps_operationWord.bind fun _ _ => (keeps_mark _).bind fun _ _ => gives_name.bind fun _ hname =>
    gives_pure hname

theorem gives_inputValue : inputValue.Gives InputValue.WellFormed := by
  refine gives_description.bind fun _ htext => gives_name.bind fun _ hkey => ?_
  refine (keeps_mark _).bind fun _ _ => (gives_typeRef _).bind fun _ htype => ?_
  exact gives_defaultValue.bind fun _ hdefault => gives_constDirectives.bind fun _ hdirs =>
    gives_pure ⟨htext, hkey, htype, hdefault, hdirs⟩

theorem gives_argumentDecls : argumentDecls.Gives fun vs => ∀ v ∈ vs, v.WellFormed :=
  gives_optionalBetween gives_inputValue _ _

theorem gives_field : field.Gives Field.WellFormed := by
  refine gives_description.bind fun _ htext => gives_name.bind fun _ hkey => ?_
  refine gives_argumentDecls.bind fun _ hargs => (keeps_mark _).bind fun _ _ => ?_
  exact (gives_typeRef _).bind fun _ htype => gives_constDirectives.bind fun _ hdirs =>
    gives_pure ⟨htext, hkey, hargs, htype, hdirs⟩

theorem gives_fields : fields.Gives fun fs => ∀ f ∈ fs, f.WellFormed :=
  gives_optionalBetween gives_field _ _

theorem gives_interfaces : interfaces.Gives fun ns => ∀ n ∈ ns, IsNameText n := by
  refine (keeps_optionalKeyword _).bind fun _ _ => .ite ?_ (gives_pure (List.forall_mem_nil _))
  exact (gives_separated gives_name _).imp fun _ h => h.2

theorem gives_unionMembers : unionMembers.Gives fun ns => ∀ n ∈ ns, IsNameText n := by
  refine (keeps_optionalMark _).bind fun _ _ => .ite ?_ (gives_pure (List.forall_mem_nil _))
  exact (gives_separated gives_name _).imp fun _ h => h.2

theorem gives_enumValue : enumValue.Gives EnumValue.WellFormed := by
  refine gives_description.bind fun text htext => .peek_bind fun lexeme => ?_
  have hrest : (∀ n, lexeme.token = .name n → n ∉ ["true", "false", "null"]) → (do
      let key ← name
      pure ⟨text, key, ← constDirectives⟩ : Reader EnumValue).GivesAt lexeme EnumValue.WellFormed :=
    fun hplain => (givesAt_name lexeme).bind fun key hkey =>
      gives_constDirectives.bind fun _ hdirs => gives_pure ⟨htext, hkey.1, hplain key hkey.2, hdirs⟩
  have hfail : ∀ cause, (do
      (fail cause lexeme : Reader PUnit)
      let key ← name
      pure ⟨text, key, ← constDirectives⟩ : Reader EnumValue).GivesAt lexeme EnumValue.WellFormed :=
    fun cause s _ _ a s' h => nomatch h
  split
  · exact hfail _
  · exact hfail _
  · exact hfail _
  · rename_i hother
    refine hrest fun n hn hreserved => ?_
    rw [hn] at hother
    simp_all [Token.value?]

theorem gives_directiveDecl (text : Option StringLiteral) (htext : ∀ t ∈ text, t.WellFormed) :
    (directiveDecl text).Gives DirectiveDecl.WellFormed := by
  have hlocation : directiveLocation.Gives fun l => l ∈ directiveLocations := by
    refine gives_peek.bind fun lexeme _ => gives_name.bind fun place _ => ?_
    split
    · rename_i hplace
      exact gives_pure hplace
    · exact gives_unexpected _
  refine (keeps_keyword _).bind fun _ _ => (keeps_mark _).bind fun _ _ => ?_
  refine gives_name.bind fun _ hkey => gives_argumentDecls.bind fun _ hargs => ?_
  refine (keeps_optionalKeyword _).bind fun _ _ => (keeps_keyword _).bind fun _ _ => ?_
  exact (gives_separated hlocation _).bind fun _ hlocations =>
    gives_pure ⟨htext, hkey, hargs, hlocations.2, hlocations.1⟩

theorem gives_typeDecl (kind : TypeKind) (text : Option StringLiteral)
    (htext : ∀ t ∈ text, t.WellFormed) :
    (typeDecl kind text).Gives fun t => t.WellFormed ∧ t.description = text := by
  refine gives_name.bind fun key hkey => ?_
  cases kind with
  | scalar =>
    exact gives_constDirectives.bind fun _ hdirs => gives_pure ⟨⟨htext, hkey, hdirs, trivial⟩, rfl⟩
  | object =>
    refine gives_interfaces.bind fun _ hinterfaces => gives_constDirectives.bind fun _ hdirs => ?_
    exact gives_fields.bind fun _ hfields =>
      gives_pure ⟨⟨htext, hkey, hdirs, hinterfaces, hfields⟩, rfl⟩
  | interface =>
    refine gives_interfaces.bind fun _ hinterfaces => gives_constDirectives.bind fun _ hdirs => ?_
    exact gives_fields.bind fun _ hfields =>
      gives_pure ⟨⟨htext, hkey, hdirs, hinterfaces, hfields⟩, rfl⟩
  | union =>
    refine gives_constDirectives.bind fun _ hdirs => gives_unionMembers.bind fun _ hmembers => ?_
    exact gives_pure ⟨⟨htext, hkey, hdirs, hmembers⟩, rfl⟩
  | enum =>
    refine gives_constDirectives.bind fun _ hdirs => ?_
    exact (gives_optionalBetween gives_enumValue _ _).bind fun _ hvalues =>
      gives_pure ⟨⟨htext, hkey, hdirs, hvalues⟩, rfl⟩
  | inputObject =>
    refine gives_constDirectives.bind fun _ hdirs => ?_
    exact (gives_optionalBetween gives_inputValue _ _).bind fun _ hfields =>
      gives_pure ⟨⟨htext, hkey, hdirs, hfields⟩, rfl⟩

theorem gives_extension : extension.Gives Definition.WellFormed := by
  have hnone : ∀ t ∈ (none : Option StringLiteral), t.WellFormed := fun _ h => nomatch h
  refine keeps_peekSecond.bind fun lexeme _ => ?_
  split
  · refine (keeps_keyword _).bind fun _ _ => (keeps_keyword _).bind fun _ _ => ?_
    refine gives_constDirectives.bind fun dirs hdirs => ?_
    refine (gives_optionalBetween gives_root _ _).bind fun roots hroots => ?_
    split
    · exact gives_unexpectedHere
    · rename_i hadds
      exact gives_pure ⟨⟨hnone, hdirs, hroots⟩, rfl, Bool.eq_false_iff.2 hadds⟩
  · split
    · refine (keeps_keyword _).bind fun _ _ => (keeps_keyword _).bind fun _ _ => ?_
      refine (gives_typeDecl _ none hnone).bind fun decl hdecl => ?_
      split
      · exact gives_unexpectedHere
      · rename_i hadds
        exact gives_pure ⟨hdecl.1, hdecl.2, Bool.eq_false_iff.2 hadds⟩
    · exact gives_unexpected _
  · exact gives_unexpected _

theorem gives_wordDefinition (word : String) (lexeme : Lexeme) (isDescribed : Bool) :
    (wordDefinition word lexeme isDescribed).Gives Definition.WellFormed := by
  unfold wordDefinition
  split
  · refine gives_description.bind fun _ htext => (keeps_keyword _).bind fun _ _ => ?_
    refine gives_constDirectives.bind fun _ hdirs => (gives_someBetween gives_root _ _).bind
      fun _ hroots => gives_pure ?_
    exact ⟨⟨htext, hdirs, hroots.2⟩, hroots.1⟩
  · refine gives_description.bind fun text htext => ?_
    exact (gives_directiveDecl text htext).bind fun _ hdecl => gives_pure hdecl
  · exact gives_operationDecl.bind fun _ hdecl => gives_pure hdecl
  · exact gives_operationDecl.bind fun _ hdecl => gives_pure hdecl
  · exact gives_operationDecl.bind fun _ hdecl => gives_pure hdecl
  · exact gives_fragmentDecl.bind fun _ hdecl => gives_pure hdecl
  · split
    · refine gives_description.bind fun text htext => (keeps_keyword _).bind fun _ _ => ?_
      exact (gives_typeDecl _ text htext).bind fun decl hdecl => gives_pure hdecl.1
    · refine .ite (gives_peek.bind fun _ _ => gives_fail _ _) ?_
      exact .ite gives_extension (gives_unexpected _)

theorem gives_definition : definition.Gives Definition.WellFormed := by
  refine gives_peek.bind fun first _ => .ite ?_ ?_
  · exact gives_shorthandQuery.bind fun _ hdecl => gives_pure hdecl
  · -- Whether or not a description comes first, what is defined is told by the next word.
    refine .ite (keeps_peekSecond.bind fun lexeme _ => ?_)
      ((keeps_pure _).bind fun lexeme _ => ?_)
    all_goals
      dsimp only
      split
      · exact gives_wordDefinition _ _ _
      · exact gives_fail _ _
      · exact gives_unexpected _

theorem gives_definitions :
    definitions.Gives fun xs => xs ≠ [] ∧ ∀ x ∈ xs, x.WellFormed := by
  have hmore : ∀ n, (moreDefinitions n).Gives fun xs => ∀ x ∈ xs, x.WellFormed := by
    intro n
    induction n with
    | zero => exact gives_unexpectedHere
    | succ n ih =>
      refine gives_peek.bind fun lexeme _ => .ite (gives_pure (List.forall_mem_nil _)) ?_
      exact gives_definition.bind fun x hx => ih.bind fun xs hxs =>
        gives_pure (List.forall_mem_cons.2 ⟨hx, hxs⟩)
  refine gives_definition.bind fun x hx => keeps_bound.bind fun n _ => ?_
  exact (hmore n).bind fun xs hxs =>
    gives_pure ⟨List.cons_ne_nil x xs, List.forall_mem_cons.2 ⟨hx, hxs⟩⟩

end Reader

/-- The definitions of a text that is read are well-formed, and there is one. -/
theorem wellFormed_of_parse {text : String} {xs : List Definition} (h : parse text = .ok xs) :
    xs ≠ [] ∧ ∀ x ∈ xs, x.WellFormed := by
  rw [parse] at h
  cases hread : Reader.definitions.run (Lexemes.ofText text) with
  | error fault =>
    rw [hread] at h
    cases h
  | ok p =>
    rw [hread] at h
    cases h
    exact (Reader.gives_definitions _ (Lexemes.ofText_scanned text) p.1 p.2 hread).1

end SchemaView.Sdl
