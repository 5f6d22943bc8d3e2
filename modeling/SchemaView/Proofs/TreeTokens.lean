import SchemaView.Proofs.BlockText
import SchemaView.Proofs.StringText
import SchemaView.Proofs.WellFormed

/-!
# The tokens of trees

What a tree is written with, without layout: the tokens of each kind of tree, in the order of its
parts. Printing a well-formed tree writes its tokens, whichever of the possible layouts it chooses.

## Key results

- `Value.WellFormed.writes`, `Selection.WellFormed.writes`: trees of values and selections
- `TypeDecl.WellFormed.writes`, `OperationDecl.WellFormed.writes`: declarations
- `scans_render`: a printed document
-/

namespace SchemaView.Sdl

/-! ## Tokens of types, values and directives -/

/-- Tokens between two marks, or nothing if there are none. -/
def enclosed (opening close : Punctuator) (tokens : List Token) : List Token :=
  if tokens = [] then [] else .punctuator opening :: (tokens ++ [.punctuator close])

/-- The token of a string. -/
def StringLiteral.token (t : StringLiteral) : Token :=
  if t.isBlock then .blockString t.value else .string t.value

/-- The token of a description, if there is one. -/
def descriptionTokens (description : Option StringLiteral) : List Token :=
  match description with
  | none => []
  | some text => [text.token]

/-- The tokens of a type reference. -/
def TypeRef.tokens : TypeRef → List Token
  | named name => [.name name]
  | list item => .punctuator .bracketL :: (item.tokens ++ [.punctuator .bracketR])
  | nonNull item => item.tokens ++ [.punctuator .bang]

namespace Value

mutual

/-- The tokens of a value. -/
def tokens : Value → List Token
  | .variable name => [.punctuator .dollar, .name name]
  | .int text => [.int text]
  | .float text => [.float text]
  | .string text => [text.token]
  | .boolean value => [.name (if value then "true" else "false")]
  | .null => [.name "null"]
  | .enum name => [.name name]
  | .list items => .punctuator .bracketL :: (itemTokens items ++ [.punctuator .bracketR])
  | .object fields => .punctuator .braceL :: (fieldTokens fields ++ [.punctuator .braceR])

/-- The tokens of the items of a list. -/
def itemTokens : List Value → List Token
  | [] => []
  | item :: items => tokens item ++ itemTokens items

/-- The tokens of the fields of an object. -/
def fieldTokens : List (Name × Value) → List Token
  | [] => []
  | (name, value) :: fields =>
    .name name :: .punctuator .colon :: (tokens value ++ fieldTokens fields)

end

end Value

/-- The tokens of a named argument. -/
def Argument.tokens (a : Argument) : List Token :=
  .name a.name :: .punctuator .colon :: a.value.tokens

/-- The tokens of arguments in parentheses. -/
def argumentTokens (arguments : List Argument) : List Token :=
  enclosed .parenL .parenR (arguments.flatMap Argument.tokens)

/-- The tokens of a use of a directive. -/
def Directive.tokens (d : Directive) : List Token :=
  .punctuator .at :: .name d.name :: argumentTokens d.arguments

/-- The tokens of uses of directives. -/
def directiveTokens (directives : List Directive) : List Token :=
  directives.flatMap Directive.tokens

/-- The tokens of a default value, if there is one. -/
def defaultTokens (default : Option Value) : List Token :=
  match default with
  | none => []
  | some value => .punctuator .equals :: value.tokens

/-- The tokens of a name behind a mark. -/
def nameBehind (mark : Punctuator) (name : Name) : List Token := [.punctuator mark, .name name]

/-- The tokens of names with a mark between each two. -/
def nameTokens (separator : Punctuator) : List Name → List Token
  | [] => []
  | name :: names => .name name :: names.flatMap (nameBehind separator)

/-! ## Tokens of declarations -/

/-- The tokens of the declaration of an argument or input field. -/
def InputValue.tokens (v : InputValue) : List Token :=
  descriptionTokens v.description ++ .name v.name :: .punctuator .colon ::
    (v.type.tokens ++ (defaultTokens v.default ++ directiveTokens v.directives))

/-- The tokens of declared arguments in parentheses. -/
def argumentDeclTokens (arguments : List InputValue) : List Token :=
  enclosed .parenL .parenR (arguments.flatMap InputValue.tokens)

/-- The tokens of the declaration of a field. -/
def Field.tokens (f : Field) : List Token :=
  descriptionTokens f.description ++ .name f.name :: (argumentDeclTokens f.arguments ++
    .punctuator .colon :: (f.type.tokens ++ directiveTokens f.directives))

/-- The tokens of the declaration of an enum value. -/
def EnumValue.tokens (v : EnumValue) : List Token :=
  descriptionTokens v.description ++ .name v.name :: directiveTokens v.directives

/-- The tokens of the interfaces that a type implements. -/
def interfaceTokens (interfaces : List Name) : List Token :=
  match interfaces with
  | [] => []
  | _ :: _ => .name "implements" :: nameTokens .amp interfaces

/-- The tokens of the members of a union. -/
def memberTokens (members : List Name) : List Token :=
  match members with
  | [] => []
  | _ :: _ => .punctuator .equals :: nameTokens .pipe members

/-- The tokens of a declaration of a type behind the name, those of its directives among them. -/
def TypeBody.tokens (directives : List Token) : TypeBody → List Token
  | scalar => directives
  | object interfaces fields | interface interfaces fields =>
    interfaceTokens interfaces ++
      (directives ++ enclosed .braceL .braceR (fields.flatMap Field.tokens))
  | union members => directives ++ memberTokens members
  | enum values => directives ++ enclosed .braceL .braceR (values.flatMap EnumValue.tokens)
  | inputObject fields => directives ++ enclosed .braceL .braceR (fields.flatMap InputValue.tokens)

/-- The tokens of a declaration of a type, without its description. -/
def TypeDecl.tokens (d : TypeDecl) : List Token :=
  .name d.body.kind.word :: .name d.name :: d.body.tokens (directiveTokens d.directives)

/-- The tokens of the root of an operation. -/
def rootTokens (root : Operation × Name) : List Token :=
  [.name root.1.word, .punctuator .colon, .name root.2]

/-- The tokens of a declaration of the schema, without its description. -/
def SchemaDecl.tokens (d : SchemaDecl) : List Token :=
  .name "schema" ::
    (directiveTokens d.directives ++ enclosed .braceL .braceR (d.roots.flatMap rootTokens))

/-- The tokens of the definition of a directive. -/
def DirectiveDecl.tokens (d : DirectiveDecl) : List Token :=
  descriptionTokens d.description ++ .name "directive" :: .punctuator .at :: .name d.name ::
    (argumentDeclTokens d.arguments ++ ((if d.repeatable then [.name "repeatable"] else []) ++
      .name "on" :: nameTokens .pipe d.locations))

/-! ## Tokens of operations and fragments -/

namespace Selection

mutual

/-- The tokens of a selection. -/
def tokens : Selection → List Token
  | .field responseName name arguments directives selections =>
    (match responseName with
      | none => []
      | some key => [.name key, .punctuator .colon]) ++
    .name name :: (argumentTokens arguments ++
      (directiveTokens directives ++ enclosed .braceL .braceR (allTokens selections)))
  | .spread fragment directives =>
    .punctuator .spread :: .name fragment :: directiveTokens directives
  | .inline condition directives selections =>
    .punctuator .spread ::
      ((match condition with
        | none => []
        | some type => [.name "on", .name type]) ++
      (directiveTokens directives ++ enclosed .braceL .braceR (allTokens selections)))

/-- The tokens of selections, one behind the other. -/
def allTokens : List Selection → List Token
  | [] => []
  | selection :: selections => tokens selection ++ allTokens selections

end

end Selection

/-- The tokens of a selection set. -/
def selectionTokens (selections : List Selection) : List Token :=
  enclosed .braceL .braceR (selections.flatMap Selection.tokens)

/-- The tokens of the declaration of a variable. -/
def VariableDecl.tokens (v : VariableDecl) : List Token :=
  descriptionTokens v.description ++ .punctuator .dollar :: .name v.name :: .punctuator .colon ::
    (v.type.tokens ++ (defaultTokens v.default ++ directiveTokens v.directives))

/-- Whether nothing of an operation is written in front of its selections. -/
def OperationDecl.isShorthand (d : OperationDecl) : Bool :=
  d.description.isNone && d.operation == .query && d.name.isNone && d.variableDecls.isEmpty
    && d.directives.isEmpty

/-- The tokens of an operation in front of its selections, if they are written. -/
def OperationDecl.frontTokens (d : OperationDecl) : List Token :=
  descriptionTokens d.description ++ .name d.operation.word ::
    ((match d.name with
      | none => []
      | some name => [.name name]) ++
    (enclosed .parenL .parenR (d.variableDecls.flatMap VariableDecl.tokens) ++
      directiveTokens d.directives))

/-- The tokens of an operation. -/
def OperationDecl.tokens (d : OperationDecl) : List Token :=
  (if d.isShorthand then [] else d.frontTokens) ++ selectionTokens d.selections

/-- The tokens of a fragment. -/
def FragmentDecl.tokens (d : FragmentDecl) : List Token :=
  descriptionTokens d.description ++ .name "fragment" :: .name d.name :: .name "on" ::
    .name d.typeCondition :: (directiveTokens d.directives ++ selectionTokens d.selections)

/-- The tokens of a definition. -/
def Definition.tokens : Definition → List Token
  | schema d => descriptionTokens d.description ++ d.tokens
  | schemaExtension d => .name "extend" :: d.tokens
  | type d => descriptionTokens d.description ++ d.tokens
  | typeExtension d => .name "extend" :: d.tokens
  | directive d => d.tokens
  | operation d => d.tokens
  | fragment d => d.tokens

/-! ## Members in marks -/

section Members

variable {tokens : List Token} {text : String}

theorem enclosed_of_ne_nil (opening close : Punctuator) (h : tokens ≠ []) :
    enclosed opening close tokens = .punctuator opening :: (tokens ++ [.punctuator close]) :=
  if_neg h

/-- A text in marks, or no text. -/
theorem Writes.inMarks {opening close : Punctuator} (h : Writes text tokens)
    (hempty : tokens = [] → text = "") (before after : String) (hbefore : isLead before = true)
    (hafter : isLead after = true) (hopening : marksIn before = [.punctuator opening])
    (hclose : marksIn after = [.punctuator close]) :
    Writes (surround before text after) (enclosed opening close tokens) := by
  have hsurround := h.surrounded hempty before after hbefore hafter
  rwa [hopening, hclose] at hsurround

theorem Writes.surround_eq (h : Writes text tokens) (hsome : tokens ≠ []) (before : String) :
    surround before text "" = before ++ text := by
  rw [surround, h.isEmpty_eq_false hsome, if_neg (by simp), String.append_empty]

/-- A text in front of which a blank stands unless it is empty. -/
theorem Writes.spaced (h : Writes text tokens) (hempty : tokens = [] → text = "") :
    Writes (surround " " text "") tokens := by
  have hsurround := h.surrounded hempty " " "" rfl rfl
  by_cases htokens : tokens = []
  · rw [if_pos htokens] at hsurround
    rwa [htokens]
  · rw [if_neg htokens] at hsurround
    have hsame : marksIn " " ++ tokens ++ marksIn "" = tokens := List.append_nil tokens
    rwa [hsame] at hsurround

/-- Nothing runs into a text in marks or behind a blank. -/
theorem apart_surround {before : String} (hbefore : isDivider before = true) (after : String) :
    Apart (surround before text after).toList := by
  rw [surround]
  split
  · exact apart_nil
  · rw [String.append_assoc]
    exact apart_of_isDivider hbefore _

variable {α : Type} {write : α → String} {tokensOf : α → List Token} {xs : List α}

theorem joinParts_eq_empty (hsome : ∀ x ∈ xs, tokensOf x ≠ []) (separator : String)
    (h : xs.flatMap tokensOf = []) : joinParts separator (xs.map write) = "" := by
  cases xs with
  | nil => rfl
  | cons x xs =>
    rw [List.flatMap_cons, List.append_eq_nil_iff] at h
    exact absurd h.1 (hsome x List.mem_cons_self)

/-- Members on one line or on several. -/
theorem writes_enclosed (before separator after : String) {opening close : Punctuator}
    (h : ∀ x ∈ xs, Writes (write x) (tokensOf x)) (hsome : ∀ x ∈ xs, tokensOf x ≠ [])
    (hseparator : isDivider separator = true) (hnone : marksIn separator = [])
    (hbefore : isLead before = true) (hafter : isLead after = true)
    (hopening : marksIn before = [.punctuator opening])
    (hclose : marksIn after = [.punctuator close]) :
    Writes (surround before (joinParts separator (xs.map write)) after)
      (enclosed opening close (xs.flatMap tokensOf)) :=
  (writes_joinParts separator hseparator hnone h).inMarks (joinParts_eq_empty hsome separator)
    before after hbefore hafter hopening hclose

/-- Members in an indented block. -/
theorem writes_indented (before separator after : String) {opening close : Punctuator}
    (h : ∀ x ∈ xs, Writes (write x) (tokensOf x)) (hsome : ∀ x ∈ xs, tokensOf x ≠ [])
    (hseparator : isDivider separator = true) (hnone : marksIn separator = [])
    (hbefore : isLead before = true) (hafter : isLead after = true)
    (hopening : marksIn before = [.punctuator opening])
    (hclose : marksIn after = [.punctuator close]) :
    Writes (surround before (indent (joinParts separator (xs.map write))) after)
      (enclosed opening close (xs.flatMap tokensOf)) := by
  have hjoined := (writes_joinParts separator hseparator hnone h).indented
  refine hjoined.inMarks (fun hempty => ?_) before after hbefore hafter hopening hclose
  rw [joinParts_eq_empty hsome separator hempty]
  rfl

/-- Members in braces, one to a line. -/
theorem writes_block (h : ∀ x ∈ xs, Writes (write x) (tokensOf x))
    (hsome : ∀ x ∈ xs, tokensOf x ≠ []) :
    Writes (block (xs.map write)) (enclosed .braceL .braceR (xs.flatMap tokensOf)) :=
  writes_indented "\x7b\n" "\n" "\n\x7d" h hsome rfl rfl rfl rfl rfl rfl

end Members

/-! ## Types, values and directives -/

theorem StringLiteral.WellFormed.writes {t : StringLiteral} (h : t.WellFormed) :
    Writes t.render [t.token] := by
  rw [StringLiteral.render, StringLiteral.token]
  split
  · rename_i hblock
    obtain ⟨b, hb⟩ := h hblock
    rw [← hb]
    exact b.writes
  · exact writes_renderString t.value

/-- A description stands in front of what it describes. -/
theorem Writes.described {tokens : List Token} {text : String} {description : Option StringLiteral}
    (hdescription : ∀ t ∈ description, t.WellFormed) (h : Writes text tokens) :
    Writes (renderDescription description ++ text) (descriptionTokens description ++ tokens) := by
  cases description with
  | none =>
    rw [renderDescription, String.empty_append]
    exact h
  | some t =>
    have hjoin := (hdescription t rfl).writes.join "\n" h rfl
    exact hjoin

theorem TypeRef.WellFormed.writes {depth : Nat} {t : TypeRef} (h : t.WellFormed depth) :
    Writes t.render t.tokens := by
  -- A list that may not be null is a case of its own, so both steps are stated for any item.
  have hlist : ∀ {item : TypeRef}, Writes item.render item.tokens →
      Writes (TypeRef.list item).render (TypeRef.list item).tokens := by
    intro item hitem
    rw [TypeRef.render, TypeRef.tokens, String.append_assoc]
    exact (hitem.closed "]" rfl).lead "[" rfl
  have hnonNull : ∀ {item : TypeRef}, Writes item.render item.tokens →
      Writes (TypeRef.nonNull item).render (TypeRef.nonNull item).tokens := by
    intro item hitem
    rw [TypeRef.render, TypeRef.tokens]
    exact hitem.closed "!" rfl
  induction h with
  | named hname => exact writes_name hname
  | list _ ih => exact hlist ih
  | nonNullNamed hname => exact hnonNull (writes_name hname)
  | nonNullList _ ih => exact hnonNull (hlist ih)

/-- A number keeps the text that writes it. -/
theorem Numeral.writes_text {m : Numeral} {token : Token} {text : String} (htoken : m.token = token)
    (htext : token.value? = some text) : Writes text [token] := by
  have hsame : m.text = text := by
    rw [← htoken, Numeral.token] at htext
    split at htext <;> exact Option.some.inj htext
  rw [← hsame, ← htoken]
  exact m.writes

namespace Value

theorem renderItems_eq_map (items : List Value) : renderItems items = items.map render := by
  induction items with
  | nil => rfl
  | cons item items ih => rw [renderItems, ih, List.map_cons]

theorem itemTokens_eq_flatMap (items : List Value) : itemTokens items = items.flatMap tokens := by
  induction items with
  | nil => rfl
  | cons item items ih => rw [itemTokens, ih, List.flatMap_cons]

theorem renderFields_eq_map (fields : List (Name × Value)) :
    renderFields fields = fields.map fun f => f.1 ++ ": " ++ render f.2 := by
  induction fields with
  | nil => rfl
  | cons field fields ih => rw [renderFields, ih, List.map_cons]

theorem fieldTokens_eq_flatMap (fields : List (Name × Value)) :
    fieldTokens fields
      = fields.flatMap fun f => .name f.1 :: .punctuator .colon :: tokens f.2 := by
  induction fields with
  | nil => rfl
  | cons field fields ih =>
    rw [fieldTokens, ih, List.flatMap_cons, List.cons_append, List.cons_append]

theorem WellFormed.writes {isConst : Bool} {depth : Nat} {v : Value}
    (h : v.WellFormed isConst depth) : Writes v.render v.tokens := by
  induction h with
  | «variable» _ hname => exact (writes_name hname).lead "$" rfl
  | int m htoken => exact Numeral.writes_text htoken rfl
  | float m htoken => exact Numeral.writes_text htoken rfl
  | string htext => exact htext.writes
  | boolean value => cases value <;> exact writes_name (by decide)
  | null => exact writes_name (by decide)
  | enum hname _ => exact writes_name hname
  | list _ ih =>
    rw [render, tokens, renderItems_eq_map, itemTokens_eq_flatMap, String.append_assoc]
    have hitems := writes_joinParts ", " rfl rfl ih
    exact (hitems.closed "]" rfl).lead "[" rfl
  | object hnames _ ih =>
    rw [render, tokens, renderFields_eq_map, fieldTokens_eq_flatMap, String.append_assoc]
    have hfields := writes_joinParts ", " rfl rfl fun f hf =>
      (writes_name (hnames f hf)).join ": " (ih f hf) rfl
    exact (hfields.closed "\x7d" rfl).lead "\x7b" rfl

end Value

theorem Argument.WellFormed.writes {isConst : Bool} {depth : Nat} {a : Argument}
    (h : a.WellFormed isConst depth) : Writes a.render a.tokens :=
  (writes_name h.name).join ": " h.value.writes rfl

theorem Directive.WellFormed.writes {isConst : Bool} {depth : Nat} {d : Directive}
    (h : d.WellFormed isConst depth) : Writes d.render d.tokens := by
  rw [Directive.render, Directive.tokens, argumentTokens, String.append_assoc]
  have harguments : Writes (surround "(" (joinParts ", " (d.arguments.map Argument.render)) ")")
      (enclosed .parenL .parenR (d.arguments.flatMap Argument.tokens)) :=
    writes_enclosed "(" ", " ")" (fun a ha => (h.arguments a ha).writes)
      (fun a _ => by simp [Argument.tokens]) rfl rfl rfl rfl rfl rfl
  exact ((writes_name h.name).append harguments (apart_surround rfl _)).lead "@" rfl

section Directives

variable {isConst : Bool} {depth : Nat} {directives : List Directive}
    (h : ∀ d ∈ directives, d.WellFormed isConst depth)

include h

theorem writes_directives : Writes (renderDirectives directives) (directiveTokens directives) :=
  writes_joinParts " " rfl rfl fun d hd => (h d hd).writes

/-- Directives stand behind what carries them. -/
theorem Writes.carrying {tokens : List Token} {text : String} (hcarrier : Writes text tokens) :
    Writes (text ++ surround " " (renderDirectives directives) "")
      (tokens ++ directiveTokens directives) := by
  have hspaced := (writes_directives h).spaced
    (joinParts_eq_empty (fun d _ => by simp [Directive.tokens]) " ")
  exact hcarrier.append hspaced (apart_surround rfl _)

end Directives

/-! ## Declarations -/

theorem writes_default (default : Option Value) :
    (∀ x ∈ default, x.WellFormed true maxDepth) →
      Writes (match default with
        | none => ""
        | some value => "= " ++ value.render) (defaultTokens default) := by
  intro h
  cases default with
  | none => exact writes_empty
  | some value => exact (h value rfl).writes.lead "= " rfl

theorem InputValue.WellFormed.writes {v : InputValue} (h : v.WellFormed) :
    Writes v.render v.tokens := by
  have hname := (writes_name h.name).join ": " h.type.writes rfl
  have hdirectives := (writes_directives h.directives).lastPart " " rfl rfl
  have hdefault := (writes_default v.default h.default).part " " hdirectives rfl rfl
  exact (hname.part " " hdefault rfl rfl).described h.description

theorem writes_argumentDecls {arguments : List InputValue} (h : ∀ a ∈ arguments, a.WellFormed) :
    Writes (renderArgumentDecls arguments) (argumentDeclTokens arguments) := by
  have harguments : ∀ a ∈ arguments, Writes a.render a.tokens := fun a ha => (h a ha).writes
  have hsome : ∀ a ∈ arguments, a.tokens ≠ [] := fun a _ => by simp [InputValue.tokens]
  rw [renderArgumentDecls, argumentDeclTokens]
  split
  · exact writes_indented "(\n" "\n" "\n)" harguments hsome rfl rfl rfl rfl rfl rfl
  · exact writes_enclosed "(" ", " ")" harguments hsome rfl rfl rfl rfl rfl rfl

/-- Nothing runs into declared arguments, or into what stands behind them. -/
theorem apart_argumentDecls (arguments : List InputValue) {behind : String}
    (h : Apart behind.toList) : Apart (renderArgumentDecls arguments ++ behind).toList := by
  refine apart_append ?_ h
  rw [renderArgumentDecls]
  split
  · exact apart_surround rfl _
  · exact apart_surround rfl _

theorem Field.WellFormed.writes {f : Field} (h : f.WellFormed) : Writes f.render f.tokens := by
  have htype := h.type.writes.carrying h.directives
  have hbehind := (writes_argumentDecls h.arguments).join ": " htype rfl
  rw [String.append_assoc] at hbehind
  have hname := (writes_name h.name).append hbehind
    (apart_argumentDecls _ (apart_of_isDivider rfl _))
  simp only [Field.render, String.append_assoc]
  exact hname.described h.description

theorem EnumValue.WellFormed.writes {v : EnumValue} (h : v.WellFormed) :
    Writes v.render v.tokens := by
  have hdirectives := (writes_directives h.directives).lastPart " " rfl rfl
  exact ((writes_name h.name).part " " hdirectives rfl rfl).described h.description

theorem nameTokens_eq_intercalate (separator : Punctuator) (names : List Name) :
    nameTokens separator names
      = [.punctuator separator].intercalate (names.map fun name => [.name name]) := by
  cases names with
  | nil => rfl
  | cons name names =>
    induction names generalizing name with
    | nil => rfl
    | cons next names ih =>
      have hnext := ih next
      rw [List.map_cons] at hnext
      rw [List.map_cons, List.map_cons, List.intercalate_cons_cons, ← hnext]
      rfl

/-- Names with marks between them. -/
theorem writes_names (separator : String) (hseparator : isDivider separator = true)
    (mark : Punctuator) (hmark : marksIn separator = [.punctuator mark]) {names : List Name}
    (h : ∀ n ∈ names, IsNameText n) :
    Writes (joinParts separator names) (nameTokens mark names) := by
  -- Empty parts are dropped where parts are joined, and no name is empty.
  have hnames : names.filter (fun name => !name.isEmpty) = names := by
    refine List.filter_eq_self.2 fun n hn => ?_
    rw [(writes_name (h n hn)).isEmpty_eq_false (List.cons_ne_nil _ _)]
    rfl
  have hjoin := writes_intercalate separator hseparator fun n hn => writes_name (h n hn)
  rw [List.map_id', hmark, ← nameTokens_eq_intercalate] at hjoin
  rwa [joinParts, hnames]

theorem writes_interfaces {interfaces : List Name} (h : ∀ n ∈ interfaces, IsNameText n) :
    Writes (renderInterfaces interfaces) (interfaceTokens interfaces) := by
  cases interfaces with
  | nil => exact writes_empty
  | cons name names =>
    have hnames := writes_names " & " rfl .amp rfl h
    have hword : IsNameText "implements" := by decide
    rw [renderInterfaces, hnames.surround_eq (List.cons_ne_nil _ _)]
    exact (writes_name hword).join " " hnames rfl

theorem writes_members {members : List Name} (h : ∀ n ∈ members, IsNameText n) :
    Writes (surround "= " (joinParts " | " members) "") (memberTokens members) := by
  cases members with
  | nil => exact writes_empty
  | cons name names =>
    have hnames := writes_names " | " rfl .pipe rfl h
    rw [hnames.surround_eq (List.cons_ne_nil _ _)]
    exact hnames.lead "= " rfl

theorem TypeBody.WellFormed.writes {b : TypeBody} (h : b.WellFormed) {directives : String}
    {tokens : List Token} (hdirectives : Writes directives tokens) :
    Writes (joinParts " " (b.renderParts directives)) (b.tokens tokens) := by
  have hfields : ∀ {fields : List Field}, (∀ f ∈ fields, f.WellFormed) →
      Writes (joinParts " " [block (fields.map Field.render)])
        (enclosed .braceL .braceR (fields.flatMap Field.tokens)) := fun h =>
    (writes_block (fun f hf => (h f hf).writes)
      fun f _ => by simp [Field.tokens]).lastPart " " rfl rfl
  cases b with
  | scalar => exact hdirectives.lastPart " " rfl rfl
  | object interfaces fields =>
    have hbehind := hdirectives.part " " (hfields h.2) rfl rfl
    exact (writes_interfaces h.1).part " " hbehind rfl rfl
  | interface interfaces fields =>
    have hbehind := hdirectives.part " " (hfields h.2) rfl rfl
    exact (writes_interfaces h.1).part " " hbehind rfl rfl
  | union members =>
    exact hdirectives.part " " ((writes_members h).lastPart " " rfl rfl) rfl rfl
  | enum values =>
    have hvalues := writes_block (fun v hv => (h v hv).writes) fun v _ => by simp [EnumValue.tokens]
    exact hdirectives.part " " (hvalues.lastPart " " rfl rfl) rfl rfl
  | inputObject fields =>
    have hinputs := writes_block (fun v hv => (h v hv).writes) fun v _ => by
      simp [InputValue.tokens]
    exact hdirectives.part " " (hinputs.lastPart " " rfl rfl) rfl rfl

theorem isNameText_kind (kind : TypeKind) : IsNameText kind.word := by cases kind <;> decide

theorem isNameText_operation (operation : Operation) : IsNameText operation.word := by
  cases operation <;> decide

/-- The places where directives may stand are names. -/
theorem isNameText_location : ∀ l ∈ Reader.directiveLocations, IsNameText l := by decide

theorem TypeDecl.WellFormed.writes {d : TypeDecl} (h : d.WellFormed) :
    Writes d.renderLine d.tokens := by
  have hbody := h.body.writes (writes_directives h.directives)
  have hname := (writes_name h.name).part " " hbody rfl rfl
  exact (writes_name (isNameText_kind _)).part " " hname rfl rfl

theorem SchemaDecl.WellFormed.writes {d : SchemaDecl} (h : d.WellFormed) :
    Writes d.renderLine d.tokens := by
  have hroot : ∀ root ∈ d.roots, Writes (renderRoot root) (rootTokens root) := fun root hroot =>
    (writes_name (isNameText_operation root.1)).join ": " (writes_name (h.roots root hroot)) rfl
  have hroots := writes_block hroot fun root _ => by simp [rootTokens]
  have hword : IsNameText "schema" := by decide
  have hbehind := (writes_directives h.directives).part " " (hroots.lastPart " " rfl rfl) rfl rfl
  exact (writes_name hword).part " " hbehind rfl rfl

/-- The word in front of a type or of places. -/
theorem Writes.behindOn {text : String} {tokens : List Token} (h : Writes text tokens) :
    Writes (" on " ++ text) (.name "on" :: tokens) := by
  have hword : IsNameText "on" := by decide
  have hblank := ((writes_name hword).join " " h rfl).lead " " rfl
  rw [← String.append_assoc] at hblank
  exact hblank

theorem DirectiveDecl.WellFormed.writes {d : DirectiveDecl} (h : d.WellFormed) :
    Writes d.render d.tokens := by
  have hdirective : IsNameText "directive" := by decide
  have hrepeatable : IsNameText "repeatable" := by decide
  have hlocations := writes_names " | " rfl .pipe rfl fun l hl =>
    isNameText_location l (h.locations l hl)
  have hplaces := hlocations.behindOn
  have hplace : Apart (" on " ++ joinParts " | " d.locations).toList :=
    apart_append_left (by decide) (by decide) _
  -- The blank in front of `on` keeps it apart from the name, the arguments or `repeatable`.
  have hbehind : Writes ((if d.repeatable then " repeatable" else "") ++
        (" on " ++ joinParts " | " d.locations))
      ((if d.repeatable then [.name "repeatable"] else []) ++
        .name "on" :: nameTokens .pipe d.locations) := by
    cases d.repeatable with
    | false =>
      rw [if_neg (by simp), if_neg (by simp), String.empty_append]
      exact hplaces
    | true =>
      have hblank := ((writes_name hrepeatable).append hplaces hplace).lead " " rfl
      rw [← String.append_assoc] at hblank
      exact hblank
  have hapart : Apart ((if d.repeatable then " repeatable" else "") ++
      (" on " ++ joinParts " | " d.locations)).toList := by
    refine apart_append ?_ hplace
    cases d.repeatable <;> decide
  have harguments := (writes_argumentDecls h.arguments).append hbehind hapart
  have hname := (writes_name h.name).append harguments (apart_argumentDecls _ hapart)
  have hword := (writes_name hdirective).join " @" hname rfl
  simp only [DirectiveDecl.render, String.append_assoc]
  exact Writes.described h.description hword

/-! ## Operations and fragments -/

/-- The arguments of a selected field stand on one line or on several. -/
theorem writes_fieldArguments {front : String} {tokens : List Token} (hfront : Writes front tokens)
    {depth : Nat} {arguments : List Argument}
    (h : ∀ a ∈ arguments, a.WellFormed false depth) :
    Writes (renderFieldArguments front (arguments.map Argument.render))
      (tokens ++ argumentTokens arguments) := by
  have harguments : ∀ a ∈ arguments, Writes a.render a.tokens := fun a ha => (h a ha).writes
  have hsome : ∀ a ∈ arguments, a.tokens ≠ [] := fun a _ => by simp [Argument.tokens]
  rw [renderFieldArguments, argumentTokens]
  split
  · exact hfront.append (writes_indented "(\n" "\n" "\n)" harguments hsome rfl rfl rfl rfl rfl rfl)
      (apart_surround rfl _)
  · exact hfront.append (writes_enclosed "(" ", " ")" harguments hsome rfl rfl rfl rfl rfl rfl)
      (apart_surround rfl _)

namespace Selection

theorem renderAll_eq_map (selections : List Selection) :
    renderAll selections = selections.map render := by
  induction selections with
  | nil => rfl
  | cons selection selections ih => rw [renderAll, ih, List.map_cons]

theorem allTokens_eq_flatMap (selections : List Selection) :
    allTokens selections = selections.flatMap tokens := by
  induction selections with
  | nil => rfl
  | cons selection selections ih => rw [allTokens, ih, List.flatMap_cons]

theorem tokens_ne_nil (s : Selection) : s.tokens ≠ [] := by
  cases s <;> simp [tokens]

variable {depth : Nat} {directives : List Directive} {selections : List Selection}

/-- Directives and a selection set behind what selects. -/
theorem writes_parts {text : String} {tokens : List Token} (h : Writes text tokens)
    (hdirectives : ∀ d ∈ directives, d.WellFormed false depth)
    (hselections : ∀ s ∈ selections, Writes s.render s.tokens) :
    Writes (joinParts " " [text, renderDirectives directives, block (renderAll selections)])
      (tokens ++ (directiveTokens directives ++ selectionTokens selections)) := by
  have hblock := (writes_block hselections fun s _ => s.tokens_ne_nil).lastPart " " rfl rfl
  rw [renderAll_eq_map]
  exact h.part " " ((writes_directives hdirectives).part " " hblock rfl rfl) rfl rfl

theorem writes_field {responseName : Option Name} {name : Name} {arguments : List Argument}
    (hresponse : ∀ key ∈ responseName, IsNameText key) (hname : IsNameText name)
    (harguments : ∀ a ∈ arguments, a.WellFormed false depth)
    (hdirectives : ∀ d ∈ directives, d.WellFormed false depth)
    (hselections : ∀ s ∈ selections, Writes s.render s.tokens) :
    Writes (render (.field responseName name arguments directives selections))
      (tokens (.field responseName name arguments directives selections)) := by
  cases responseName with
  | none =>
    have hfront := writes_fieldArguments (writes_name hname) harguments
    rw [render, tokens, allTokens_eq_flatMap]
    exact writes_parts hfront hdirectives hselections
  | some key =>
    have hnames := (writes_name (hresponse key rfl)).join ": " (writes_name hname) rfl
    have hfront := writes_fieldArguments hnames harguments
    rw [render, tokens, allTokens_eq_flatMap]
    exact writes_parts hfront hdirectives hselections

theorem writes_inline {condition : Option Name} (hcondition : ∀ type ∈ condition, IsNameText type)
    (hdirectives : ∀ d ∈ directives, d.WellFormed false depth)
    (hselections : ∀ s ∈ selections, Writes s.render s.tokens) :
    Writes (render (.inline condition directives selections))
      (tokens (.inline condition directives selections)) := by
  have hdots := writes_empty.spread
  have hon : IsNameText "on" := by decide
  cases condition with
  | none =>
    rw [render, tokens, allTokens_eq_flatMap]
    exact hdots.part " " (writes_parts writes_empty hdirectives hselections) rfl rfl
  | some type =>
    have htype := (writes_name hon).join " " (writes_name (hcondition type rfl)) rfl
    rw [render, tokens, allTokens_eq_flatMap]
    exact hdots.part " " (writes_parts htype hdirectives hselections) rfl rfl

theorem WellFormed.writes {s : Selection} (h : s.WellFormed depth) : Writes s.render s.tokens := by
  induction h with
  | leaf hresponse hname harguments hdirectives =>
    exact writes_field hresponse hname harguments hdirectives (List.forall_mem_nil _)
  | node hresponse hname harguments hdirectives _ _ ih =>
    exact writes_field hresponse hname harguments hdirectives ih
  | spread hfragment _ hdirectives =>
    rw [render, tokens, String.append_assoc]
    exact ((writes_name hfragment).carrying hdirectives).spread
  | inline hcondition hdirectives _ _ ih => exact writes_inline hcondition hdirectives ih

end Selection

theorem SelectionSet.writes {depth : Nat} {selections : List Selection}
    (h : SelectionSet depth selections) :
    Writes (block (Selection.renderAll selections)) (selectionTokens selections) := by
  obtain ⟨-, hselections⟩ := h
  rw [Selection.renderAll_eq_map]
  exact writes_block (fun s hs => (hselections s hs).writes) fun s _ => s.tokens_ne_nil

/-- A default value stands behind a type. -/
theorem Writes.defaulted {text : String} {tokens : List Token} (h : Writes text tokens)
    (default : Option Value) : (∀ x ∈ default, x.WellFormed true maxDepth) →
      Writes (text ++ match default with
        | none => ""
        | some value => " = " ++ value.render) (tokens ++ defaultTokens default) := by
  intro hdefault
  cases default with
  | none => exact h.append writes_empty apart_nil
  | some value =>
    exact h.append ((hdefault value rfl).writes.lead " = " rfl) (apart_of_isDivider rfl _)

theorem VariableDecl.WellFormed.writes {v : VariableDecl} (h : v.WellFormed) :
    Writes v.render v.tokens := by
  have htype := (h.type.writes.defaulted v.default h.default).carrying h.directives
  rw [List.append_assoc] at htype
  have hnamed := ((writes_name h.name).join ": " htype rfl).lead "$" rfl
  simp only [VariableDecl.render, String.append_assoc] at hnamed ⊢
  exact hnamed.described h.description

theorem apart_variables (variableDecls : List VariableDecl) :
    Apart (renderVariables variableDecls).toList := by
  rw [renderVariables]
  split
  · exact apart_surround rfl _
  · exact apart_surround rfl _

theorem writes_variables {variableDecls : List VariableDecl}
    (h : ∀ v ∈ variableDecls, v.WellFormed) :
    Writes (renderVariables variableDecls)
      (enclosed .parenL .parenR (variableDecls.flatMap VariableDecl.tokens)) := by
  have hvariables : ∀ v ∈ variableDecls, Writes v.render v.tokens := fun v hv => (h v hv).writes
  have hsome : ∀ v ∈ variableDecls, v.tokens ≠ [] := fun v _ => by simp [VariableDecl.tokens]
  rw [renderVariables]
  split
  · exact writes_enclosed "(\n" "\n" "\n)" hvariables hsome rfl rfl rfl rfl rfl rfl
  · exact writes_enclosed "(" ", " ")" hvariables hsome rfl rfl rfl rfl rfl rfl

theorem OperationDecl.eq_of_isShorthand {d : OperationDecl} (h : d.isShorthand = true) :
    d = ⟨none, .query, none, [], [], d.selections⟩ := by
  obtain ⟨description, operation, name, variableDecls, directives, selections⟩ := d
  simp only [OperationDecl.isShorthand, Bool.and_eq_true, Option.isNone_iff_eq_none, beq_iff_eq,
    List.isEmpty_iff] at h
  obtain ⟨⟨⟨⟨rfl, rfl⟩, rfl⟩, rfl⟩, rfl⟩ := h
  rfl

/-- Only a shorthand query has no more than its word in front of its selections. -/
theorem OperationDecl.isShorthand_of_frontTokens {d : OperationDecl}
    (h : d.frontTokens = [.name "query"]) : d.isShorthand = true := by
  obtain ⟨description, operation, name, variableDecls, directives, selections⟩ := d
  simp only [OperationDecl.frontTokens] at h
  cases description with
  | some t => simp [descriptionTokens] at h
  | none =>
    simp only [descriptionTokens, List.nil_append, List.cons.injEq, Token.name.injEq,
      List.append_eq_nil_iff] at h
    -- Each part that is there would have a token behind the word.
    obtain ⟨hword, hname, hvariables, hdirectives⟩ := h
    have hoperation : operation = .query := by
      cases operation with
      | query => rfl
      | mutation | subscription => simp [Operation.word] at hword
    have hanonymous : name = none := by
      cases name with
      | none => rfl
      | some name => simp at hname
    have hclosed : variableDecls = [] := by
      cases variableDecls with
      | nil => rfl
      | cons x xs => simp [enclosed, VariableDecl.tokens] at hvariables
    have hplain : directives = [] := by
      cases directives with
      | nil => rfl
      | cons x xs => simp [directiveTokens, Directive.tokens] at hdirectives
    simp [OperationDecl.isShorthand, hoperation, hanonymous, hclosed, hplain]

theorem OperationDecl.WellFormed.writes {d : OperationDecl} (h : d.WellFormed) :
    Writes d.render d.tokens := by
  have hselections := h.selections.writes
  have hvariables := writes_variables h.variableDecls
  have hfront : Writes (renderDescription d.description ++
      joinParts " "
        [d.operation.word, d.name.getD "" ++ renderVariables d.variableDecls,
         renderDirectives d.directives]) d.frontTokens := by
    have hnamed : Writes (d.name.getD "" ++ renderVariables d.variableDecls)
        ((match d.name with
          | none => []
          | some name => [.name name]) ++
        enclosed .parenL .parenR (d.variableDecls.flatMap VariableDecl.tokens)) := by
      cases hname : d.name with
      | none =>
        rw [Option.getD_none, String.empty_append]
        exact hvariables
      | some name => exact (writes_name (h.name name hname)).append hvariables (apart_variables _)
    have hbehind := hnamed.part " " ((writes_directives h.directives).lastPart " " rfl rfl) rfl rfl
    rw [List.append_assoc] at hbehind
    exact ((writes_name (isNameText_operation _)).part " " hbehind rfl rfl).described h.description
  simp only [OperationDecl.render, OperationDecl.tokens]
  by_cases hshort : d.isShorthand = true
  · have hquery : renderDescription d.description ++
        joinParts " "
          [d.operation.word, d.name.getD "" ++ renderVariables d.variableDecls,
           renderDirectives d.directives] = "query" := by
      rw [OperationDecl.eq_of_isShorthand hshort]
      rfl
    rw [if_pos hshort, if_pos hquery, String.empty_append]
    exact hselections
  · -- Text and tokens of what stands in front are those of the word only together.
    have hlong : renderDescription d.description ++
        joinParts " "
          [d.operation.word, d.name.getD "" ++ renderVariables d.variableDecls,
           renderDirectives d.directives] ≠ "query" := by
      intro hquery
      rw [hquery] at hfront
      have hword : IsNameText "query" := by decide
      exact hshort (isShorthand_of_frontTokens (hfront.scans.unique (writes_name hword).scans))
    rw [if_neg hshort, if_neg hlong]
    exact hfront.join " " hselections rfl

theorem FragmentDecl.WellFormed.writes {d : FragmentDecl} (h : d.WellFormed) :
    Writes d.render d.tokens := by
  have hselections := h.selections.writes
  have hdirectives := writes_directives h.directives
  have hword : IsNameText "fragment" := by decide
  -- The blank in front of the block is there only with directives, so they are not parts here.
  have hbehind : Writes (surround "" (renderDirectives d.directives) " " ++
      block (Selection.renderAll d.selections))
      (directiveTokens d.directives ++ selectionTokens d.selections) := by
    by_cases hnone : directiveTokens d.directives = []
    · have hempty : renderDirectives d.directives = "" :=
        joinParts_eq_empty (fun x _ => by simp [Directive.tokens]) " " hnone
      have hnothing : surround "" "" " " = "" := rfl
      rw [hempty, hnone, hnothing, String.empty_append, List.nil_append]
      exact hselections
    · rw [surround, hdirectives.isEmpty_eq_false hnone, if_neg (by simp), String.empty_append]
      exact hdirectives.join " " hselections rfl
  have hcondition := ((writes_name h.typeCondition).join " " hbehind rfl).behindOn
  have hname := (writes_name h.name).append hcondition (apart_append_left (by decide) (by decide) _)
  have hfragment := ((writes_name hword).join " " hname rfl).described h.description
  simp only [FragmentDecl.render, String.append_assoc] at hfragment ⊢
  exact hfragment

theorem Definition.WellFormed.writes {x : Definition} (h : x.WellFormed) :
    Writes x.render x.tokens := by
  have hextend : IsNameText "extend" := by decide
  cases x with
  | schema d => exact h.1.writes.described h.1.description
  | schemaExtension d => exact (writes_name hextend).join " " h.1.writes rfl
  | type d => exact TypeDecl.WellFormed.writes h |>.described h.description
  | typeExtension d => exact (writes_name hextend).join " " h.1.writes rfl
  | directive d => exact DirectiveDecl.WellFormed.writes h
  | operation d => exact OperationDecl.WellFormed.writes h
  | fragment d => exact FragmentDecl.WellFormed.writes h

/-- A printed document has the tokens of its definitions, one behind the other. -/
theorem scans_render {definitions : List Definition} (h : ∀ x ∈ definitions, x.WellFormed) :
    Scans (render definitions).toList (definitions.flatMap Definition.tokens) :=
  (writes_joinParts "\n\n" rfl rfl fun x hx => (h x hx).writes).scans

end SchemaView.Sdl
