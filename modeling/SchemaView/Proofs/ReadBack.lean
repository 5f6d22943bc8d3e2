import SchemaView.Proofs.TokenReading

/-!
# Reading trees back

Readers answer the tree whose tokens come next. Values and selection sets end by themselves. Members
and definitions end where the next token does not go on with them, which `Settled` and `Concluded`
say of the tokens behind them.

## Key results

- `reads_value`, `reads_inputValue`, `reads_selectionSet`: trees of each kind
- `reads_typeDefinition`, `reads_operation`: definitions
-/

namespace SchemaView.Sdl

namespace Reader

variable {rest after : List Token}

/-! ## What follows a tree -/

/-- Uses of directives avoid all tokens but their own mark. -/
theorem avoids_directives {t : Token} (dirs : List Directive) (ht : t ≠ .punctuator .at)
    (h : Avoids t rest) : Avoids t (directiveTokens dirs ++ rest) := by
  cases dirs with
  | nil => exact h
  | cons d dirs => exact ht.symm

theorem avoids_default {t : Token} (default : Option Value) (ht : t ≠ .punctuator .equals)
    (h : Avoids t rest) : Avoids t (defaultTokens default ++ rest) := by
  cases default with
  | none => exact h
  | some value => exact ht.symm

theorem avoids_members {t : Token} {members : List Name} (ht : t ≠ .punctuator .equals)
    (h : Avoids t rest) : Avoids t (memberTokens members ++ rest) := by
  cases members with
  | nil => exact h
  | cons name names => exact ht.symm

theorem avoids_enclosed {t : Token} {opening close : Punctuator} {tokens : List Token}
    (ht : t ≠ .punctuator opening) (h : Avoids t rest) :
    Avoids t (enclosed opening close tokens ++ rest) := by
  by_cases hnone : tokens = []
  · rw [enclosed, if_pos hnone]
    exact h
  · rw [enclosed_of_ne_nil _ _ hnone]
    exact ht.symm

/-- The marks that go on with a member that they stand behind. -/
def continuing : List Punctuator := [.bang, .parenL, .colon, .equals, .at, .braceL]

/-- The next token does not go on with the member in front of it. -/
def Settled (rest : List Token) : Prop := ∀ m ∈ continuing, Avoids (.punctuator m) rest

/-- Whether members start with a token: a name, a description, the mark of a variable or a
    spread. -/
def startsMember : Token → Bool
  | .name _ | .string _ | .blockString _ => true
  | .punctuator m => m == .dollar || m == .spread
  | _ => false

/-- Tokens that a member can start with. -/
def Begins (tokens : List Token) : Prop :=
  ∃ t more, tokens = t :: more ∧ startsMember t = true

theorem Begins.avoids {tokens : List Token} (h : Begins tokens) {m : Punctuator}
    (hm : startsMember (.punctuator m) = false) (more : List Token) :
    Avoids (.punctuator m) (tokens ++ more) := by
  obtain ⟨t, behind, rfl, ht⟩ := h
  rintro rfl
  rw [hm] at ht
  cases ht

theorem Begins.settled {tokens : List Token} (h : Begins tokens) (more : List Token) :
    Settled (tokens ++ more) := fun m hm => h.avoids (by revert m; decide) more

/-- Members are read up to the closing mark if each one is read where nothing goes on with it. -/
theorem repeats_members {element : Reader α} {write : α → List Token} {close : Punctuator}
    {xs : List α} (hclose : close = .parenR ∨ close = .braceR)
    (hbegins : ∀ x ∈ xs, Begins (write x))
    (hread : ∀ x ∈ xs, ∀ more, Settled more → element.Reads (write x ++ more) x more) :
    Repeats element write close Settled xs where
  reads := hread
  follows x hx := (hbegins x hx).settled
  last more := by rcases hclose with rfl | rfl <;> simp [Settled, continuing]
  avoids x hx := (hbegins x hx).avoids (by rcases hclose with rfl | rfl <;> rfl)

/-- A description stands in front of what starts a member. -/
theorem begins_described (description : Option StringLiteral) {t : Token}
    (ht : startsMember t = true) (more : List Token) :
    Begins (descriptionTokens description ++ t :: more) := by
  cases description with
  | none => exact ⟨t, more, rfl, ht⟩
  | some text =>
    refine ⟨text.token, t :: more, rfl, ?_⟩
    rw [StringLiteral.token]
    split <;> rfl

/-! ## Types, values and directives -/

theorem reads_nonNullMark (t : TypeRef) (rest : List Token) :
    (nonNullMark t).Reads (.punctuator .bang :: rest) (.nonNull t) rest :=
  (reads_optionalMark .bang rest).bind (reads_pure _ rest)

theorem reads_no_nonNullMark (t : TypeRef) (h : Avoids (.punctuator .bang) rest) :
    (nonNullMark t).Reads rest t rest :=
  (reads_no_optionalMark h).bind (reads_pure t rest)

theorem reads_typeRef_named (depth : Nat) {text : Name} {t : TypeRef}
    (h : (nonNullMark (.named text)).Reads rest t after) :
    (typeRef depth).Reads (.name text :: rest) t after := by
  have hname := (reads_name text rest).bind (f := fun n => nonNullMark (.named n)) h
  have hopening : Avoids (.punctuator .bracketL) (.name text :: rest) := by simp
  cases depth with
  | zero => exact (reads_no_optionalMark hopening).bind hname
  | succ depth => exact (reads_no_optionalMark hopening).bind hname

theorem reads_typeRef_list {depth : Nat} {item t : TypeRef}
    (hitem : (typeRef depth).Reads (item.tokens ++ .punctuator .bracketR :: rest) item
      (.punctuator .bracketR :: rest))
    (h : (nonNullMark (.list item)).Reads rest t after) :
    (typeRef (depth + 1)).Reads
      (.punctuator .bracketL :: (item.tokens ++ .punctuator .bracketR :: rest)) t after :=
  (reads_optionalMark .bracketL _).bind (hitem.bind ((reads_mark .bracketR rest).bind h))

theorem reads_typeRef {depth : Nat} {t : TypeRef} (h : t.WellFormed depth) {rest : List Token}
    (hrest : Avoids (.punctuator .bang) rest) :
    (typeRef depth).Reads (t.tokens ++ rest) t rest := by
  have hclose : ∀ more, Avoids (.punctuator .bang) (.punctuator .bracketR :: more) := by simp
  induction h generalizing rest with
  | named _ => exact reads_typeRef_named _ (reads_no_nonNullMark _ hrest)
  | list _ ih =>
    rw [TypeRef.tokens, List.cons_append, List.append_assoc]
    exact reads_typeRef_list (ih (hclose rest)) (reads_no_nonNullMark _ hrest)
  | nonNullNamed _ => exact reads_typeRef_named _ (reads_nonNullMark _ rest)
  | nonNullList _ ih =>
    rw [TypeRef.tokens, TypeRef.tokens, List.cons_append, List.cons_append, List.append_assoc,
      List.append_assoc]
    exact reads_typeRef_list (ih (hclose _)) (reads_nonNullMark _ rest)

section Values

variable {isConst : Bool} {depth : Nat} {v : Value}

/-- A value that opens no level is read as one. -/
theorem reads_value_of_plain {t : Token} (hlist : t ≠ .punctuator .bracketL)
    (hobject : t ≠ .punctuator .braceL) (h : (plainValue isConst).Reads (t :: rest) v after) :
    (value isConst depth).Reads (t :: rest) v after := by
  cases depth with
  | zero =>
    refine meets_peek_bind fun p => ?_
    split
    · exact absurd ‹_› hlist
    · exact absurd ‹_› hobject
    · exact h
  | succ depth =>
    refine meets_peek_bind fun p => ?_
    split
    · exact absurd ‹_› hlist
    · exact absurd ‹_› hobject
    · exact h

theorem reads_value_of_word {word : String} (h : wordValue word = v) (rest : List Token) :
    (value isConst depth).Reads (.name word :: rest) v rest := by
  refine reads_value_of_plain (by simp) (by simp) (meets_peek_bind fun _ => ?_)
  exact (reads_advance _ rest).bind (h ▸ reads_pure _ rest)

/-- No value starts with the end of a list. -/
theorem avoids_value (v : Value) (more : List Token) :
    Avoids (.punctuator .bracketR) (v.tokens ++ more) := by
  cases v with
  | string text =>
    obtain ⟨value, isBlock⟩ := text
    cases isBlock <;> simp [Value.tokens, StringLiteral.token]
  | _ => simp [Value.tokens]

theorem reads_value (h : v.WellFormed isConst depth) (rest : List Token) :
    (value isConst depth).Reads (v.tokens ++ rest) v rest := by
  -- Values end by themselves, so nothing is asked of what stands behind an item or a field.
  induction h generalizing rest with
  | «variable» hconst _ =>
    refine reads_value_of_plain (by simp) (by simp) (meets_peek_bind fun _ => ?_)
    refine meets_if_neg (by simp [hconst]) ?_
    exact (reads_mark .dollar _).bind ((reads_name _ rest).bind (reads_pure _ rest))
  | int _ _ =>
    refine reads_value_of_plain (by simp) (by simp) (meets_peek_bind fun _ => ?_)
    exact (reads_advance _ rest).bind (reads_pure _ rest)
  | float _ _ =>
    refine reads_value_of_plain (by simp) (by simp) (meets_peek_bind fun _ => ?_)
    exact (reads_advance _ rest).bind (reads_pure _ rest)
  | @string depth text _ =>
    obtain ⟨value, isBlock⟩ := text
    cases isBlock with
    | false =>
      refine reads_value_of_plain (by simp [StringLiteral.token]) (by simp [StringLiteral.token])
        (meets_peek_bind fun _ => ?_)
      exact (reads_advance _ rest).bind (reads_pure _ rest)
    | true =>
      refine reads_value_of_plain (by simp [StringLiteral.token]) (by simp [StringLiteral.token])
        (meets_peek_bind fun _ => ?_)
      exact (reads_advance _ rest).bind (reads_pure _ rest)
  | boolean value => cases value <;> exact reads_value_of_word rfl rest
  | null => exact reads_value_of_word rfl rest
  | enum _ hword => exact reads_value_of_word hword rest
  | @list depth items _ ih =>
    have hitems : Repeats (value isConst depth) Value.tokens .bracketR (fun _ => True) items :=
      ⟨fun item hitem more _ => ih item hitem more, fun _ _ _ => trivial, fun _ => trivial,
        fun item _ more => avoids_value item more⟩
    rw [Value.tokens, Value.itemTokens_eq_flatMap, List.cons_append, List.append_assoc]
    refine meets_peek_bind fun _ => ?_
    exact (reads_between hitems .bracketL rest).bind (reads_pure _ rest)
  | @object depth fields _ _ ih =>
    have hfields : Repeats (objectField (value isConst depth))
        (fun f => .name f.1 :: .punctuator .colon :: f.2.tokens) .braceR (fun _ => True) fields :=
      ⟨fun f hf more _ => (reads_name f.1 _).bind ((reads_mark .colon _).bind
        ((ih f hf more).bind (reads_pure f more))), fun _ _ _ => trivial, fun _ => trivial,
        fun f _ more => by simp⟩
    rw [Value.tokens, Value.fieldTokens_eq_flatMap, List.cons_append, List.append_assoc]
    refine meets_peek_bind fun _ => ?_
    exact (reads_between hfields .braceL rest).bind (reads_pure _ rest)

theorem reads_arguments {args : List Argument} (h : ∀ a ∈ args, a.WellFormed isConst depth)
    (hrest : Avoids (.punctuator .parenL) rest) :
    (arguments isConst depth).Reads (argumentTokens args ++ rest) args rest := by
  have hargs : Repeats (argument isConst depth) Argument.tokens .parenR (fun _ => True) args :=
    ⟨fun a ha more _ => (reads_name a.name _).bind ((reads_mark .colon _).bind
      ((reads_value (h a ha).value more).bind (reads_pure a more))), fun _ _ _ => trivial,
      fun _ => trivial, fun a _ more => by simp [Argument.tokens]⟩
  exact reads_optionalBetween hargs .parenL fun _ => hrest

theorem reads_directive {d : Directive} (h : d.WellFormed isConst depth)
    (hrest : Avoids (.punctuator .parenL) rest) :
    (directive isConst depth).Reads (d.tokens ++ rest) d rest :=
  (reads_mark .at _).bind ((reads_name d.name _).bind
    ((reads_arguments h.arguments hrest).bind (reads_pure d rest)))

theorem reads_directivesUpTo {dirs : List Directive} (h : ∀ d ∈ dirs, d.WellFormed isConst depth)
    (hat : Avoids (.punctuator .at) rest) (hparen : Avoids (.punctuator .parenL) rest) {n : Nat}
    (hn : dirs.length < n) :
    (directivesUpTo isConst depth n).Reads (directiveTokens dirs ++ rest) dirs rest := by
  induction dirs generalizing n with
  | nil =>
    cases n with
    | zero => exact absurd hn (Nat.not_lt_zero _)
    | succ n => exact (reads_not_atMark hat).bind (reads_pure [] rest)
  | cons d dirs ih =>
    cases n with
    | zero => exact absurd hn (Nat.not_lt_zero _)
    | succ n =>
      have hdirs := ih (fun x hx => h x (List.mem_cons_of_mem _ hx)) (Nat.lt_of_succ_lt_succ hn)
      have hnext := avoids_directives dirs (by simp) hparen
      have hd := reads_directive (h d List.mem_cons_self) hnext
      rw [directiveTokens, List.flatMap_cons, List.append_assoc]
      exact (reads_atMark .at _).bind (hd.bind (hdirs.bind (reads_pure (d :: dirs) rest)))

theorem reads_directives {dirs : List Directive} (h : ∀ d ∈ dirs, d.WellFormed isConst depth)
    (hat : Avoids (.punctuator .at) rest) (hparen : Avoids (.punctuator .parenL) rest) :
    (directives isConst depth).Reads (directiveTokens dirs ++ rest) dirs rest := by
  refine meets_bound_bind fun n hn => reads_directivesUpTo h hat hparen ?_
  have hlength := length_le_length_flatMap fun (d : Directive) (_ : d ∈ dirs) =>
    (by simp [Directive.tokens] : d.tokens ≠ [])
  rw [List.length_append, directiveTokens] at hn
  omega

end Values

theorem reads_description (description? : Option StringLiteral) (h : isText (next rest) = false) :
    description.Reads (descriptionTokens description? ++ rest) description? rest := by
  refine meets_peek_bind fun p => ?_
  cases description? with
  | none =>
    split
    · rename_i htoken
      rw [show next rest = _ from htoken] at h
      cases h
    · rename_i htoken
      rw [show next rest = _ from htoken] at h
      cases h
    · exact reads_pure none rest
  | some text =>
    obtain ⟨value, isBlock⟩ := text
    cases isBlock with
    | false => exact (reads_advance _ rest).bind (reads_pure _ rest)
    | true => exact (reads_advance _ rest).bind (reads_pure _ rest)

theorem reads_defaultValue {default : Option Value} (h : ∀ x ∈ default, x.WellFormed true maxDepth)
    (hrest : Avoids (.punctuator .equals) rest) :
    defaultValue.Reads (defaultTokens default ++ rest) default rest := by
  cases default with
  | none => exact (reads_no_optionalMark hrest).bind (reads_pure none rest)
  | some value =>
    exact (reads_optionalMark .equals _).bind
      ((reads_value (h value rfl) rest).bind (reads_pure (some value) rest))

theorem reads_constDirectives {dirs : List Directive} (h : ConstDirectives dirs)
    (hrest : Settled rest) : constDirectives.Reads (directiveTokens dirs ++ rest) dirs rest :=
  reads_directives h (hrest .at (by decide)) (hrest .parenL (by decide))

/-! ## Declarations -/

theorem reads_inputValue {v : InputValue} (h : v.WellFormed) (hrest : Settled rest) :
    inputValue.Reads (v.tokens ++ rest) v rest := by
  have hequals := avoids_directives v.directives (by simp) (hrest .equals (by decide))
  have hbang := avoids_default v.default (by simp)
    (avoids_directives v.directives (by simp) (hrest .bang (by decide)))
  simp only [InputValue.tokens, List.append_assoc, List.cons_append]
  refine (reads_description _ rfl).bind ((reads_name _ _).bind ((reads_mark .colon _).bind ?_))
  refine (reads_typeRef h.type hbang).bind ((reads_defaultValue h.default hequals).bind ?_)
  exact (reads_constDirectives h.directives hrest).bind (reads_pure v rest)

theorem reads_argumentDecls {args : List InputValue} (h : ∀ a ∈ args, a.WellFormed)
    (hrest : Avoids (.punctuator .parenL) rest) :
    argumentDecls.Reads (argumentDeclTokens args ++ rest) args rest :=
  reads_optionalBetween (repeats_members (.inl rfl) (fun _ _ => begins_described _ rfl _)
    fun _ ha _ => reads_inputValue (h _ ha)) .parenL fun _ => hrest

theorem reads_field {f : Field} (h : f.WellFormed) (hrest : Settled rest) :
    field.Reads (f.tokens ++ rest) f rest := by
  have hbang := avoids_directives f.directives (by simp) (hrest .bang (by decide))
  simp only [Field.tokens, List.append_assoc, List.cons_append]
  refine (reads_description _ rfl).bind ((reads_name _ _).bind ?_)
  refine (reads_argumentDecls h.arguments (by simp)).bind ((reads_mark .colon _).bind ?_)
  refine (reads_typeRef h.type hbang).bind ?_
  exact (reads_constDirectives h.directives hrest).bind (reads_pure f rest)

theorem reads_enumValue {v : EnumValue} (h : v.WellFormed) (hrest : Settled rest) :
    enumValue.Reads (v.tokens ++ rest) v rest := by
  have hother : ∀ word ∈ ["true", "false", "null"], some v.name ≠ some word :=
    fun word hword hname => h.not_reserved (Option.some.inj hname ▸ hword)
  simp only [EnumValue.tokens, List.append_assoc, List.cons_append]
  refine (reads_description _ rfl).bind (meets_peek_bind fun p => ?_)
  split
  · exact absurd ‹_› (hother _ (by simp))
  · exact absurd ‹_› (hother _ (by simp))
  · exact absurd ‹_› (hother _ (by simp))
  · exact (reads_name _ _).bind
      ((reads_constDirectives h.directives hrest).bind (reads_pure v rest))

theorem reads_interfaces (names : List Name) (hword : Avoids (.name "implements") rest)
    (hamp : Avoids (.punctuator .amp) rest) :
    interfaces.Reads (interfaceTokens names ++ rest) names rest := by
  cases names with
  | nil => exact (reads_no_optionalKeyword hword).bind (reads_pure [] rest)
  | cons name names =>
    exact (reads_optionalKeyword "implements" _).bind
      (reads_separated (List.cons_ne_nil _ _) (fun n _ => reads_name n) hamp)

theorem reads_unionMembers (names : List Name) (hequals : Avoids (.punctuator .equals) rest)
    (hpipe : Avoids (.punctuator .pipe) rest) :
    unionMembers.Reads (memberTokens names ++ rest) names rest := by
  cases names with
  | nil => exact (reads_no_optionalMark hequals).bind (reads_pure [] rest)
  | cons name names =>
    exact (reads_optionalMark .equals _).bind
      (reads_separated (List.cons_ne_nil _ _) (fun n _ => reads_name n) hpipe)

/-- What goes on with a definition that it stands behind. -/
def goingOn : List Token :=
  [.name "implements", .punctuator .amp, .punctuator .at, .punctuator .parenL, .punctuator .equals,
   .punctuator .pipe]

/-- The next token does not go on with the definition in front of it. -/
def Concluded (rest : List Token) : Prop := ∀ t ∈ goingOn, Avoids t rest

theorem Concluded.reads_constDirectives (h : Concluded rest) {dirs : List Directive}
    (hdirs : ConstDirectives dirs) :
    constDirectives.Reads (directiveTokens dirs ++ rest) dirs rest :=
  reads_directives hdirs (h _ (by decide)) (h _ (by decide))

theorem Concluded.reads_interfaces (h : Concluded rest) (parents : List Name)
    (dirs : List Directive) :
    interfaces.Reads (interfaceTokens parents ++ (directiveTokens dirs ++ rest)) parents
      (directiveTokens dirs ++ rest) :=
  Reader.reads_interfaces parents (avoids_directives _ (by simp) (h _ (by decide)))
    (avoids_directives _ (by simp) (h _ (by decide)))

theorem Concluded.block (h : Concluded rest) (tokens : List Token) :
    Concluded (enclosed .braceL .braceR tokens ++ rest) := fun t ht =>
  avoids_enclosed (by revert t; decide) (h t ht)

theorem reads_fields {fs : List Field} (h : ∀ f ∈ fs, f.WellFormed)
    (hrest : fs = [] → Avoids (.punctuator .braceL) rest) :
    fields.Reads (enclosed .braceL .braceR (fs.flatMap Field.tokens) ++ rest) fs rest :=
  reads_optionalBetween (repeats_members (.inr rfl) (fun _ _ => begins_described _ rfl _)
    fun _ hf _ => reads_field (h _ hf)) .braceL hrest

end Reader

/-- Whether a body could have a block and has none. -/
def TypeBody.lacksBlock : TypeBody → Bool
  | scalar | union _ => false
  | object _ fields | interface _ fields => fields.isEmpty
  | enum values => values.isEmpty
  | inputObject fields => fields.isEmpty

namespace Reader

variable {rest : List Token}

theorem reads_typeDecl {t : TypeDecl} (h : t.WellFormed) (hrest : Concluded rest)
    (hblock : t.body.lacksBlock = true → Avoids (.punctuator .braceL) rest) :
    (typeDecl t.body.kind t.description).Reads
      (.name t.name :: (t.body.tokens (directiveTokens t.directives) ++ rest)) t rest := by
  obtain ⟨text, key, dirs, body⟩ := t
  have hdirs : ConstDirectives dirs := h.directives
  have hbody : body.WellFormed := h.body
  refine (reads_name key _).bind ?_
  cases body with
  | scalar => exact (hrest.reads_constDirectives hdirs).bind (reads_pure _ rest)
  | object parents fs =>
    simp only [TypeBody.tokens, List.append_assoc]
    have hbehind := hrest.block (fs.flatMap Field.tokens)
    refine (hbehind.reads_interfaces parents dirs).bind ?_
    refine (hbehind.reads_constDirectives hdirs).bind ?_
    exact (reads_fields hbody.2 fun hnone => hblock (by simp [TypeBody.lacksBlock, hnone])).bind
      (reads_pure _ rest)
  | interface parents fs =>
    simp only [TypeBody.tokens, List.append_assoc]
    have hbehind := hrest.block (fs.flatMap Field.tokens)
    refine (hbehind.reads_interfaces parents dirs).bind ?_
    refine (hbehind.reads_constDirectives hdirs).bind ?_
    exact (reads_fields hbody.2 fun hnone => hblock (by simp [TypeBody.lacksBlock, hnone])).bind
      (reads_pure _ rest)
  | union members =>
    simp only [TypeBody.tokens, List.append_assoc]
    -- The directives are in front of the members here, so an equals sign may follow them.
    have hmembers := reads_unionMembers members (hrest _ (by decide)) (hrest _ (by decide))
    refine Reads.bind ?_ (hmembers.bind (reads_pure _ rest))
    exact reads_directives hdirs (avoids_members (by simp) (hrest _ (by decide)))
      (avoids_members (by simp) (hrest _ (by decide)))
  | enum values =>
    simp only [TypeBody.tokens, List.append_assoc]
    refine ((hrest.block _).reads_constDirectives hdirs).bind ?_
    have hvalues := repeats_members (.inr rfl) (fun _ _ => begins_described _ rfl _)
      fun v hv _ => reads_enumValue (hbody v hv)
    exact (reads_optionalBetween hvalues .braceL fun hnone =>
      hblock (by simp [TypeBody.lacksBlock, hnone])).bind (reads_pure _ rest)
  | inputObject fs =>
    simp only [TypeBody.tokens, List.append_assoc]
    refine ((hrest.block _).reads_constDirectives hdirs).bind ?_
    have hfields := repeats_members (.inr rfl) (fun _ _ => begins_described _ rfl _)
      fun f hf _ => reads_inputValue (hbody f hf)
    exact (reads_optionalBetween hfields .braceL fun hnone =>
      hblock (by simp [TypeBody.lacksBlock, hnone])).bind (reads_pure _ rest)

theorem reads_operationWord (operation : Operation) (rest : List Token) :
    operationWord.Reads (.name operation.word :: rest) operation rest := by
  refine meets_peek_bind fun p => (reads_name _ rest).bind ?_
  cases operation <;> exact reads_pure _ rest

theorem begins_root (root : Operation × Name) : Begins (rootTokens root) :=
  ⟨_, _, rfl, rfl⟩

theorem repeats_roots (roots : List (Operation × Name)) :
    Repeats root rootTokens .braceR Settled roots :=
  repeats_members (.inr rfl) (fun r _ => begins_root r) fun r _ more _ =>
    (reads_operationWord r.1 _).bind ((reads_mark .colon _).bind
      ((reads_name r.2 more).bind (reads_pure r more)))

theorem reads_directiveLocation {place : Name} (h : place ∈ directiveLocations)
    (rest : List Token) :
    directiveLocation.Reads (.name place :: rest) place rest :=
  meets_peek_bind fun _ => (reads_name place rest).bind (meets_if_pos h (reads_pure place rest))

theorem reads_directiveDecl {d : DirectiveDecl} (h : d.WellFormed)
    (hrest : Avoids (.punctuator .pipe) rest) :
    (directiveDecl d.description).Reads
      (.name "directive" :: .punctuator .at :: .name d.name ::
        (argumentDeclTokens d.arguments ++ ((if d.repeatable then [.name "repeatable"] else []) ++
          .name "on" :: (nameTokens .pipe d.locations ++ rest)))) d rest := by
  have hplaces := reads_separated h.located
    (fun l hl => reads_directiveLocation (h.locations l hl)) hrest
  refine (reads_keyword _ _).bind ((reads_mark _ _).bind ((reads_name _ _).bind ?_))
  obtain ⟨text, key, args, repeatable, places⟩ := d
  cases repeatable with
  | false =>
    refine (reads_argumentDecls h.arguments (by simp)).bind ?_
    refine (reads_no_optionalKeyword (by simp)).bind ((reads_keyword _ _).bind ?_)
    exact hplaces.bind (reads_pure _ rest)
  | true =>
    refine (reads_argumentDecls h.arguments (by simp)).bind ?_
    refine (reads_optionalKeyword _ _).bind ((reads_keyword _ _).bind ?_)
    exact hplaces.bind (reads_pure _ rest)

/-! ## Operations and fragments -/

theorem reads_fragmentName {fragment : Name} (h : fragment ≠ "on") (rest : List Token) :
    fragmentName.Reads (.name fragment :: rest) fragment rest :=
  meets_peek_bind fun _ =>
    meets_if_neg (fun hon => h (Option.some.inj hon)) (reads_name fragment rest)

section Selections

variable {depth : Nat} {set : Reader (List Selection)} {dirs : List Directive}
    {selections : List Selection}

theorem selectionTokens_of_ne_nil (h : selections ≠ []) : selectionTokens selections
    = .punctuator .braceL :: (selections.flatMap Selection.tokens ++ [.punctuator .braceR]) := by
  obtain ⟨s, selections, rfl⟩ := List.exists_cons_of_ne_nil h
  refine enclosed_of_ne_nil _ _ ?_
  rw [List.flatMap_cons, Ne, List.append_eq_nil_iff]
  exact fun hnone => s.tokens_ne_nil hnone.1

/-- What is read of a field behind its names. -/
theorem reads_behindNames (responseName : Option Name) (key : Name) {args : List Argument}
    (hargs : ∀ a ∈ args, a.WellFormed false depth) (hdirs : ∀ d ∈ dirs, d.WellFormed false depth)
    (hset : selections ≠ [] → set.Reads (selectionTokens selections ++ rest) selections rest)
    (hrest : Settled rest) :
    (do
      let args ← arguments false depth
      let dirs ← directives false depth
      let selections ← if ← atMark .braceL then set else pure []
      pure (.field responseName key args dirs selections) : Reader Selection).Reads
      (argumentTokens args ++ (directiveTokens dirs ++ (selectionTokens selections ++ rest)))
      (.field responseName key args dirs selections) rest := by
  have hparen : Avoids (.punctuator .parenL) (selectionTokens selections ++ rest) :=
    avoids_enclosed (by simp) (hrest _ (by decide))
  have hat : Avoids (.punctuator .at) (selectionTokens selections ++ rest) :=
    avoids_enclosed (by simp) (hrest _ (by decide))
  refine (reads_arguments hargs (avoids_directives _ (by simp) hparen)).bind ?_
  refine (reads_directives hdirs hat hparen).bind ?_
  by_cases hnone : selections = []
  · subst hnone
    exact (reads_not_atMark (hrest .braceL (by decide))).bind
      ((reads_pure [] rest).bind (reads_pure _ rest))
  · have hread := hset hnone
    rw [selectionTokens_of_ne_nil hnone] at hread ⊢
    exact (reads_atMark .braceL _).bind (hread.bind (reads_pure _ rest))

theorem reads_fieldSelection (responseName : Option Name) (key : Name) {args : List Argument}
    (hargs : ∀ a ∈ args, a.WellFormed false depth) (hdirs : ∀ d ∈ dirs, d.WellFormed false depth)
    (hset : selections ≠ [] → set.Reads (selectionTokens selections ++ rest) selections rest)
    (hrest : Settled rest) :
    (selection depth set).Reads
      (Selection.tokens (.field responseName key args dirs selections) ++ rest)
      (.field responseName key args dirs selections) rest := by
  have hbehind := reads_behindNames responseName key hargs hdirs hset hrest
  simp only [Selection.tokens, Selection.allTokens_eq_flatMap, List.append_assoc, List.cons_append]
  cases responseName with
  | none =>
    -- Without a colon behind it the first name is the name of the field.
    have hcolon : Avoids (.punctuator .colon)
        (argumentTokens args ++ (directiveTokens dirs ++ (selectionTokens selections ++ rest))) :=
      avoids_enclosed (by simp) (avoids_directives _ (by simp)
        (avoids_enclosed (by simp) (hrest _ (by decide))))
    refine (reads_no_optionalMark (by simp)).bind ((reads_name key _).bind ?_)
    exact (reads_no_optionalMark hcolon).bind hbehind
  | some first =>
    refine (reads_no_optionalMark (by simp)).bind ((reads_name first _).bind ?_)
    exact (reads_optionalMark .colon _).bind ((reads_name key _).bind hbehind)

theorem reads_spread {fragment : Name} (hfragment : fragment ≠ "on")
    (hdirs : ∀ d ∈ dirs, d.WellFormed false depth) (hrest : Settled rest) :
    (selection depth set).Reads (Selection.tokens (.spread fragment dirs) ++ rest)
      (.spread fragment dirs) rest := by
  simp only [Selection.tokens, List.cons_append]
  refine (reads_optionalMark .spread _).bind ?_
  refine (reads_no_optionalKeyword (by simpa using hfragment)).bind (meets_peek_bind fun _ => ?_)
  refine meets_if_pos rfl ((reads_fragmentName hfragment _).bind ?_)
  have hreads := reads_directives hdirs (hrest _ (by decide)) (hrest _ (by decide))
  exact hreads.bind (reads_pure _ rest)

theorem reads_inlineFragment (condition : Option Name)
    (hdirs : ∀ d ∈ dirs, d.WellFormed false depth) (hsome : selections ≠ [])
    (hset : set.Reads (selectionTokens selections ++ rest) selections rest) :
    (selection depth set).Reads
      (Selection.tokens (.inline condition dirs selections) ++ rest)
      (.inline condition dirs selections) rest := by
  have hbehind : (do
      let dirs ← directives false depth
      pure (.inline condition dirs (← set)) : Reader Selection).Reads
      (directiveTokens dirs ++ (selectionTokens selections ++ rest))
      (.inline condition dirs selections) rest := by
    rw [selectionTokens_of_ne_nil hsome] at hset ⊢
    exact (reads_directives hdirs (by simp) (by simp)).bind (hset.bind (reads_pure _ rest))
  simp only [Selection.tokens, Selection.allTokens_eq_flatMap, List.append_assoc, List.cons_append]
  refine (reads_optionalMark .spread _).bind ?_
  cases condition with
  | none =>
    -- A name behind the dots would be a fragment, or the word in front of a condition.
    have hname : ∀ text, Avoids (.name text)
        (directiveTokens dirs ++ (selectionTokens selections ++ rest)) := by
      intro text
      rw [selectionTokens_of_ne_nil hsome]
      exact avoids_directives _ (by simp) (by simp)
    refine (reads_no_optionalKeyword (hname "on")).bind (meets_peek_bind fun p => ?_)
    refine meets_if_neg ?_ ((reads_pure none _).bind hbehind)
    split
    · exact absurd ‹_› (hname _)
    · simp
  | some type =>
    refine (reads_optionalKeyword "on" _).bind (meets_peek_bind fun p => ?_)
    refine meets_if_neg (by simp) ?_
    exact ((reads_name type _).map some).bind hbehind

theorem reads_selection {s : Selection} (h : s.WellFormed depth)
    (hset : ∀ xs more, SelectionSet depth xs → set.Reads (selectionTokens xs ++ more) xs more)
    (hrest : Settled rest) : (selection depth set).Reads (s.tokens ++ rest) s rest := by
  cases h with
  | leaf _ _ hargs hdirs =>
    exact reads_fieldSelection _ _ hargs hdirs (fun hsome => absurd rfl hsome) hrest
  | node _ _ hargs hdirs hsome hselections =>
    exact reads_fieldSelection _ _ hargs hdirs (fun _ => hset _ rest (.mk hsome hselections)) hrest
  | spread _ hon hdirs => exact reads_spread hon hdirs hrest
  | inline _ hdirs hsome hselections =>
    exact reads_inlineFragment _ hdirs hsome (hset _ rest (.mk hsome hselections))

end Selections

theorem begins_selection (s : Selection) : Begins s.tokens := by
  cases s with
  | field responseName =>
    cases responseName with
    | none => exact ⟨_, _, rfl, rfl⟩
    | some key => exact ⟨_, _, rfl, rfl⟩
  | spread => exact ⟨_, _, rfl, rfl⟩
  | inline => exact ⟨_, _, rfl, rfl⟩

theorem reads_selectionSet {depth : Nat} {selections : List Selection}
    (h : SelectionSet depth selections) (rest : List Token) :
    (selectionSet depth).Reads (selectionTokens selections ++ rest) selections rest := by
  -- Selections are read with the reader of the sets one level below.
  induction depth generalizing selections rest with
  | zero => cases h
  | succ depth ih =>
    cases h with
    | mk hsome hselections =>
      have hrepeats := repeats_members (.inr rfl) (fun s _ => begins_selection s) fun s hs _ =>
        reads_selection (hselections s hs) fun _ more h => ih h more
      exact reads_someBetween hrepeats hsome .braceL rest

theorem reads_variableDecl {v : VariableDecl} (h : v.WellFormed) (hrest : Settled rest) :
    variableDecl.Reads (v.tokens ++ rest) v rest := by
  have hequals := avoids_directives v.directives (by simp) (hrest .equals (by decide))
  have hbang := avoids_default v.default (by simp)
    (avoids_directives v.directives (by simp) (hrest .bang (by decide)))
  simp only [VariableDecl.tokens, List.append_assoc, List.cons_append]
  refine (reads_description _ rfl).bind ((reads_mark .dollar _).bind ((reads_name _ _).bind ?_))
  refine (reads_mark .colon _).bind ((reads_typeRef h.type hbang).bind ?_)
  refine (reads_defaultValue h.default hequals).bind ?_
  exact (reads_constDirectives h.directives hrest).bind (reads_pure v rest)

/-- A selection set starts with its brace. -/
theorem avoids_selectionSet {depth : Nat} {selections : List Selection}
    (h : SelectionSet depth selections) {t : Token} (ht : t ≠ .punctuator .braceL)
    (more : List Token) : Avoids t (selectionTokens selections ++ more) := by
  cases h with
  | mk hsome _ =>
    rw [selectionTokens_of_ne_nil hsome]
    exact ht.symm

theorem reads_operationDecl {d : OperationDecl} (h : d.WellFormed) (rest : List Token) :
    operationDecl.Reads (d.frontTokens ++ (selectionTokens d.selections ++ rest)) d rest := by
  have hset : ∀ {t : Token}, t ≠ .punctuator .braceL →
      Avoids t (selectionTokens d.selections ++ rest) := fun ht =>
    avoids_selectionSet h.selections ht rest
  have hbehind : (do
      let variableDecls ← optionalBetween .parenL .parenR variableDecl
      let dirs ← directives false maxDepth
      pure ⟨d.description, d.operation, d.name, variableDecls, dirs, ← selectionSet maxDepth⟩
        : Reader OperationDecl).Reads
      (enclosed .parenL .parenR (d.variableDecls.flatMap VariableDecl.tokens) ++
        (directiveTokens d.directives ++ (selectionTokens d.selections ++ rest))) d rest := by
    have hvariables := repeats_members (.inl rfl) (fun _ _ => begins_described _ rfl _)
      fun v hv _ => reads_variableDecl (h.variableDecls v hv)
    refine (reads_optionalBetween hvariables .parenL fun _ =>
      avoids_directives _ (by simp) (hset (by simp))).bind ?_
    refine (reads_directives h.directives (hset (by simp)) (hset (by simp))).bind ?_
    exact (reads_selectionSet h.selections rest).bind (reads_pure d rest)
  simp only [OperationDecl.frontTokens, List.append_assoc, List.cons_append]
  refine (reads_description _ rfl).bind ((reads_operationWord _ _).bind ?_)
  refine meets_peek_bind fun p => ?_
  cases hname : d.name with
  | some name =>
    rw [hname] at hbehind
    exact ((reads_name name _).map some).bind hbehind
  | none =>
    rw [hname] at hbehind
    split
    · refine absurd ‹_› (avoids_enclosed (by simp)
        (avoids_directives _ (by simp) (hset (by simp))) : Avoids _ _)
    · exact (reads_pure none _).bind hbehind

theorem reads_shorthandQuery {selections : List Selection} (h : SelectionSet maxDepth selections)
    (rest : List Token) :
    shorthandQuery.Reads (selectionTokens selections ++ rest)
      ⟨none, .query, none, [], [], selections⟩
      rest :=
  (reads_selectionSet h rest).bind (reads_pure _ rest)

theorem reads_fragmentDecl {d : FragmentDecl} (h : d.WellFormed) (rest : List Token) :
    fragmentDecl.Reads (d.tokens ++ rest) d rest := by
  have hset : ∀ {t : Token}, t ≠ .punctuator .braceL →
      Avoids t (selectionTokens d.selections ++ rest) := fun ht =>
    avoids_selectionSet h.selections ht rest
  simp only [FragmentDecl.tokens, List.append_assoc, List.cons_append]
  refine (reads_description _ rfl).bind ((reads_keyword _ _).bind ?_)
  refine (reads_fragmentName h.name_ne_on _).bind ((reads_keyword _ _).bind ?_)
  refine (reads_name _ _).bind ?_
  refine (reads_directives h.directives (hset (by simp)) (hset (by simp))).bind ?_
  exact (reads_selectionSet h.selections rest).bind (reads_pure d rest)

/-! ## Definitions -/

/-- A definition starts with its word, possibly behind a description. -/
theorem meets_definition (description? : Option StringLiteral) {word : String} {more : List Token}
    {post : Except Fault (Definition × Lexemes) → Prop}
    (h : ∀ lexeme, (wordDefinition word lexeme description?.isSome).Meets
      (descriptionTokens description? ++ .name word :: more) post) :
    definition.Meets (descriptionTokens description? ++ .name word :: more) post := by
  refine meets_peek_bind fun p => ?_
  cases description? with
  | none =>
    refine meets_if_neg (by simp [descriptionTokens]) ?_
    exact (reads_pure _ _).bind (h _)
  | some text =>
    obtain ⟨value, isBlock⟩ := text
    cases isBlock with
    | false =>
      refine meets_if_neg (by simp [descriptionTokens, StringLiteral.token]) ?_
      exact meets_peekSecond_bind fun q => h _
    | true =>
      refine meets_if_neg (by simp [descriptionTokens, StringLiteral.token]) ?_
      exact meets_peekSecond_bind fun q => h _

theorem reads_schema {d : SchemaDecl} (h : d.WellFormed) (hroots : d.roots ≠ [])
    (hrest : Concluded rest) :
    definition.Reads (Definition.tokens (.schema d) ++ rest) (.schema d) rest := by
  simp only [Definition.tokens, SchemaDecl.tokens, List.append_assoc, List.cons_append]
  refine meets_definition _ fun lexeme => ?_
  refine (reads_description _ rfl).bind ((reads_keyword _ _).bind ?_)
  refine ((hrest.block _).reads_constDirectives h.directives).bind ?_
  exact (reads_someBetween (repeats_roots d.roots) hroots .braceL rest).bind (reads_pure _ rest)

theorem reads_directiveDefinition {d : DirectiveDecl} (h : d.WellFormed) (hrest : Concluded rest) :
    definition.Reads (d.tokens ++ rest) (.directive d) rest := by
  simp only [DirectiveDecl.tokens, List.append_assoc, List.cons_append]
  refine meets_definition _ fun lexeme => ?_
  refine (reads_description _ rfl).bind ?_
  exact (reads_directiveDecl h (hrest _ (by decide))).bind (reads_pure _ rest)

theorem reads_typeDefinition {t : TypeDecl} (h : t.WellFormed) (hrest : Concluded rest)
    (hblock : t.body.lacksBlock = true → Avoids (.punctuator .braceL) rest) :
    definition.Reads (Definition.tokens (.type t) ++ rest) (.type t) rest := by
  have hread := reads_typeDecl h hrest hblock
  simp only [Definition.tokens, TypeDecl.tokens, List.append_assoc, List.cons_append]
  refine meets_definition _ fun lexeme => ?_
  cases hkind : t.body.kind <;> rw [hkind] at hread
  all_goals
    refine (reads_description _ rfl).bind ((reads_keyword _ _).bind ?_)
    exact hread.bind (reads_pure _ rest)

theorem reads_schemaExtension {d : SchemaDecl} (h : d.WellFormed) (hnone : d.description = none)
    (hadds : (d.directives.isEmpty && d.roots.isEmpty) = false) (hrest : Concluded rest)
    (hblock : d.roots = [] → Avoids (.punctuator .braceL) rest) :
    definition.Reads (Definition.tokens (.schemaExtension d) ++ rest) (.schemaExtension d)
      rest := by
  obtain ⟨text, dirs, roots⟩ := d
  obtain rfl : text = none := hnone
  have hdirs : ConstDirectives dirs := h.directives
  simp only [Definition.tokens, SchemaDecl.tokens, List.append_assoc, List.cons_append]
  refine meets_definition none fun lexeme => meets_peekSecond_bind fun p => ?_
  refine (reads_keyword _ _).bind ((reads_keyword _ _).bind ?_)
  refine ((hrest.block _).reads_constDirectives hdirs).bind ?_
  refine (reads_optionalBetween (repeats_roots roots) .braceL hblock).bind ?_
  exact meets_if_neg (by simpa using hadds) (reads_pure _ rest)

theorem reads_typeExtension {t : TypeDecl} (h : t.WellFormed) (hnone : t.description = none)
    (hadds : (t.directives.isEmpty && isEmptyBody t.body) = false) (hrest : Concluded rest)
    (hblock : t.body.lacksBlock = true → Avoids (.punctuator .braceL) rest) :
    definition.Reads (Definition.tokens (.typeExtension t) ++ rest) (.typeExtension t) rest := by
  have hread := reads_typeDecl h hrest hblock
  rw [hnone] at hread
  simp only [Definition.tokens, TypeDecl.tokens, List.cons_append]
  refine meets_definition none fun lexeme => meets_peekSecond_bind fun p => ?_
  cases hkind : t.body.kind <;> rw [hkind] at hread
  all_goals
    refine (reads_keyword _ _).bind ((reads_keyword _ _).bind (hread.bind ?_))
    exact meets_if_neg (by simp [hadds]) (reads_pure _ rest)

theorem reads_operation {d : OperationDecl} (h : d.WellFormed) (rest : List Token) :
    definition.Reads (d.tokens ++ rest) (.operation d) rest := by
  rw [OperationDecl.tokens, List.append_assoc]
  by_cases hshort : d.isShorthand = true
  · have hread := reads_shorthandQuery h.selections rest
    have hbrace : next (selectionTokens d.selections ++ rest) = .punctuator .braceL := by
      cases hselections : h.selections with
      | mk hsome _ => rw [selectionTokens_of_ne_nil hsome]; rfl
    rw [← OperationDecl.eq_of_isShorthand hshort] at hread
    rw [if_pos hshort]
    exact meets_peek_bind fun p => meets_if_pos hbrace (hread.bind (reads_pure _ rest))
  · have hread := reads_operationDecl h rest
    rw [if_neg hshort]
    simp only [OperationDecl.frontTokens, List.append_assoc, List.cons_append] at hread ⊢
    refine meets_definition _ fun lexeme => ?_
    cases hoperation : d.operation <;> rw [hoperation] at hread
    all_goals exact hread.bind (reads_pure _ rest)

theorem reads_fragment {d : FragmentDecl} (h : d.WellFormed) (rest : List Token) :
    definition.Reads (d.tokens ++ rest) (.fragment d) rest := by
  have hread := reads_fragmentDecl h rest
  simp only [FragmentDecl.tokens, List.append_assoc, List.cons_append] at hread ⊢
  exact meets_definition _ fun lexeme => hread.bind (reads_pure _ rest)

end Reader

end SchemaView.Sdl
