import SchemaView.Sdl.Render
import SchemaView.Sdl.Scan

/-!
# Layout and tokens

What a printed text says is in its tokens; blanks and line breaks between them only lay it out.
`Scans` says which tokens a text has. `Writes` says that a text writes given tokens wherever it
stands: inside any number of indented blocks, and in front of anything that it does not run into. So
the parts of a printed text can be looked at one by one, and how they are spread over lines does not
matter.

## Key results

- `Scans.gap`, `Scans.token`: a text from its first token on
- `Writes.append`, `Writes.lead`: texts one behind the other, and behind marks and blanks
- `writes_joinParts`, `Writes.surrounded`, `Writes.indented`: how the printer puts parts together
-/

namespace SchemaView.Sdl

variable {tokens more : List Token} {rest : List Char} {text : String}

/-! ## Texts and their tokens -/

/-- A text has given tokens, and no fault behind them. -/
def Scans (chars : List Char) (tokens : List Token) : Prop :=
  ∀ n p, chars.length < n → ∃ items q,
    Lexemes.scan n ⟨chars, p⟩ = (items, .endOfText q) ∧ items.map Lexeme.token = tokens

/-- Blanks, commas and line feeds, which stand between tokens. -/
def isGap (c : Char) : Bool := isSeparator c || c == '\n'

/-- Whether a character starts neither a token nor a fault. -/
def isIgnored (c : Char) : Bool := isGap c || c == '\r' || c == '#'

theorem skipIgnored_gap {c : Char} (hc : isGap c = true) (rest : List Char) (p : Position) :
    ∃ q, skipIgnored false (c :: rest) p = skipIgnored false rest q := by
  by_cases hbreak : c = '\n'
  · exact ⟨p.nextLine, by simp [skipIgnored, hbreak]⟩
  · have hseparator : isSeparator c = true := by simpa [isGap, hbreak] using hc
    have hreturn : c ≠ '\r' := by
      rintro rfl
      revert hseparator
      decide
    exact ⟨p.right 1, by simp [skipIgnored, hbreak, hreturn, hseparator]⟩

theorem skipIgnored_of_not_ignored {c : Char} (hc : isIgnored c = false) (rest : List Char)
    (p : Position) : skipIgnored false (c :: rest) p = ⟨c :: rest, p⟩ := by
  simp only [isIgnored, isGap, Bool.or_eq_false_iff, beq_eq_false_iff_ne] at hc
  simp [skipIgnored, hc]

theorem scans_nil : Scans [] [] := by
  intro n p hn
  obtain ⟨m, rfl⟩ : ∃ m, n = m + 1 := ⟨n - 1, by omega⟩
  exact ⟨[], p, by simp [Lexemes.scan, skipIgnored], rfl⟩

/-- A blank in front of a text adds no token. -/
theorem Scans.gap {c : Char} (h : Scans rest tokens) (hc : isGap c = true) :
    Scans (c :: rest) tokens := by
  intro n p hn
  rw [List.length_cons] at hn
  obtain ⟨m, rfl⟩ : ∃ m, n = m + 1 := ⟨n - 1, by omega⟩
  obtain ⟨q, hq⟩ := skipIgnored_gap hc rest p
  have hscan : Lexemes.scan (m + 1) ⟨c :: rest, p⟩ = Lexemes.scan (m + 1) ⟨rest, q⟩ := by
    simp only [Lexemes.scan, hq]
  rw [hscan]
  exact h (m + 1) q (by omega)

/-- A text that a token is scanned from has the tokens of the rest behind it. -/
theorem Scans.token {c : Char} {front : List Char} {token : Token} (h : Scans rest tokens)
    (hc : isIgnored c = false)
    (hscan : ∀ p, ∃ q, scanToken ⟨c :: (front ++ rest), p⟩ = .ok (token, ⟨rest, q⟩)) :
    Scans (c :: (front ++ rest)) (token :: tokens) := by
  intro n p hn
  rw [List.length_cons, List.length_append] at hn
  obtain ⟨m, rfl⟩ : ∃ m, n = m + 1 := ⟨n - 1, by omega⟩
  obtain ⟨q, hq⟩ := hscan p
  obtain ⟨items, e, hitems, hmap⟩ := h m q (by omega)
  refine ⟨⟨token, p⟩ :: items, e, ?_, by rw [List.map_cons, hmap]⟩
  simp [Lexemes.scan, skipIgnored_of_not_ignored hc, hq, hitems]

/-- A text has no two lists of tokens. -/
theorem Scans.unique {chars : List Char} (h : Scans chars tokens) (h' : Scans chars more) :
    tokens = more := by
  obtain ⟨items, q, hscan, hmap⟩ := h (chars.length + 1) .start (by omega)
  obtain ⟨items', q', hscan', hmap'⟩ := h' (chars.length + 1) .start (by omega)
  rw [hscan, Prod.mk.injEq] at hscan'
  rw [← hmap, ← hmap', hscan'.1]

/-! ## Texts in indented blocks -/

/-- A text inside of so many indented blocks: each line break has blanks behind it. -/
def indentBy (n : Nat) (chars : List Char) : List Char :=
  chars.flatMap fun c => if c = '\n' then '\n' :: List.replicate (2 * n) ' ' else [c]

@[simp] theorem indentBy_append (n : Nat) (front back : List Char) :
    indentBy n (front ++ back) = indentBy n front ++ indentBy n back := List.flatMap_append

theorem indentBy_cons (n : Nat) (c : Char) (chars : List Char) :
    indentBy n (c :: chars)
      = (if c = '\n' then '\n' :: List.replicate (2 * n) ' ' else [c]) ++ indentBy n chars :=
  List.flatMap_cons

/-- Text on one line is not indented. -/
theorem indentBy_eq_self {n : Nat} {chars : List Char} (h : '\n' ∉ chars) :
    indentBy n chars = chars := by
  induction chars with
  | nil => rfl
  | cons c chars ih =>
    rw [List.mem_cons, not_or] at h
    rw [indentBy_cons, ih h.2, if_neg (Ne.symm h.1), List.singleton_append]

/-- One more block around a text puts two more blanks behind each line break. -/
theorem indentBy_indentBreaks (n : Nat) (chars : List Char) :
    indentBy n (indentBreaks chars) = indentBy (n + 1) chars := by
  induction chars with
  | nil => rfl
  | cons c chars ih =>
    rw [indentBreaks, indentBy_cons (n + 1)]
    by_cases hc : c = '\n'
    · have hblanks : List.replicate (2 * (n + 1)) ' ' =
          List.replicate (2 * n) ' ' ++ [' ', ' '] := by
        rw [Nat.mul_succ, ← List.replicate_append_replicate]
        rfl
      simp [hc, indentBy_cons, ih, hblanks]
    · simp [hc, indentBy_cons, ih]

/-! ## What stands behind a token -/

/-- A rest that no name, number or string in front of it runs into. -/
def Apart (rest : List Char) : Prop :=
  ∀ c, rest.head? = some c → isNameContinue c = false ∧ c ≠ '.' ∧ c ≠ '"'

instance (rest : List Char) : Decidable (Apart rest) :=
  decidable_of_iff (rest.head?.all (fun c => !isNameContinue c && c != '.' && c != '"') = true) <| by
    simp [Apart, Option.all_eq_true, and_assoc]

theorem apart_nil : Apart [] := fun _ h => nomatch h

theorem Apart.append {front : List Char} (hfront : Apart front) (hrest : Apart rest) :
    Apart (front ++ rest) := by
  cases front with
  | nil => exact hrest
  | cons c front => exact hfront

theorem apart_append {front back : String} (hfront : Apart front.toList)
    (hback : Apart back.toList) :
    Apart (front ++ back).toList := by
  rw [String.toList_append]
  exact hfront.append hback

/-- What runs into a text depends on its first character only. -/
theorem apart_append_left {front : String} (h : Apart front.toList) (hsome : front ≠ "")
    (back : String) : Apart (front ++ back).toList := by
  intro c hc
  apply h c
  cases hlist : front.toList with
  | nil => exact absurd (String.toList_eq_nil_iff.1 hlist) hsome
  | cons x xs =>
    rw [String.toList_append, hlist, List.cons_append] at hc
    exact hc

theorem apart_indentBy {n : Nat} {chars : List Char} (h : Apart chars) :
    Apart (indentBy n chars) := by
  cases chars with
  | nil => exact h
  | cons c chars =>
    intro x hx
    apply h x
    rw [indentBy_cons] at hx
    by_cases hc : c = '\n'
    · simpa [hc] using hx
    · simpa [hc] using hx

/-! ## Marks and blanks -/

/-- Whether a text is made of marks, blanks, commas and line feeds. -/
def isLead (text : String) : Bool :=
  text.toList.all fun c => isGap c || (Punctuator.ofChar? c).isSome

/-- The marks in a text. -/
def marksIn (text : String) : List Token :=
  text.toList.filterMap fun c => (Punctuator.ofChar? c).map Token.punctuator

/-- The characters that are a mark. -/
theorem of_ofChar? {c : Char} {mark : Punctuator} (h : Punctuator.ofChar? c = some mark) :
    isIgnored c = false ∧ isNameContinue c = false ∧ c ≠ '.' ∧ c ≠ '"' := by
  unfold Punctuator.ofChar? at h
  split at h <;> first | decide | cases h

theorem scanToken_mark {c : Char} {mark : Punctuator} (h : Punctuator.ofChar? c = some mark)
    (rest : List Char) (p : Position) :
    scanToken ⟨c :: rest, p⟩ = .ok (.punctuator mark, ⟨rest, p.right 1⟩) := by
  obtain ⟨-, -, hdot, hquote⟩ := of_ofChar? h
  simp only [scanToken]
  split
  · contradiction
  · simp_all
  · simp_all
  · simp_all
  · rename_i heq
    cases heq
    simp [h, Cursor.skip]

/-- Blanks are neither marks nor parts of names. -/
theorem of_isGap {c : Char} (h : isGap c = true) :
    Punctuator.ofChar? c = none ∧ isNameContinue c = false ∧ c ≠ '.' ∧ c ≠ '"' := by
  simp only [isGap, isSeparator, Bool.or_eq_true, beq_iff_eq] at h
  rcases h with (((rfl | rfl) | rfl) | rfl) | rfl <;> decide

/-- Nothing runs into marks and blanks. -/
theorem apart_of_isLead (h : isLead text = true) : Apart text.toList := by
  intro c hc
  have hlead := List.all_eq_true.1 h c (List.mem_of_mem_head? hc)
  rw [Bool.or_eq_true] at hlead
  rcases hlead with hgap | hmark
  · exact (of_isGap hgap).2
  · obtain ⟨mark, hmark⟩ := Option.isSome_iff_exists.1 hmark
    exact (of_ofChar? hmark).2

/-- The characters of a class in front of a rest that starts with none of them. -/
theorem takeWhile_append_of_stop {keep : Char → Bool} {front : List Char}
    (hfront : ∀ c ∈ front, keep c = true) (hrest : ∀ c, rest.head? = some c → keep c = false) :
    (front ++ rest).takeWhile keep = front := by
  have hnone : rest.takeWhile keep = [] := by
    cases rest with
    | nil => rfl
    | cons c rest => rw [List.takeWhile_cons_of_neg (by simp [hrest c rfl])]
  rw [List.takeWhile_append_of_pos hfront, hnone, List.append_nil]

/-! ## Names -/

/-- Whether a text is a name: a letter or an underscore, and then letters, digits and
    underscores. -/
structure IsNameText (text : String) : Prop where
  starts : ∃ c, text.toList.head? = some c ∧ isNameStart c = true
  continues : ∀ c ∈ text.toList, isNameContinue c = true

instance (text : String) : Decidable (IsNameText text) :=
  decidable_of_iff
    (text.toList.head?.any isNameStart = true ∧ text.toList.all isNameContinue = true) <| by
      rw [Option.any_eq_true, List.all_eq_true]
      exact ⟨fun h => ⟨h.1, h.2⟩, fun h => ⟨h.starts, h.continues⟩⟩

theorem isNameContinue_of_isNameStart {c : Char} (h : isNameStart c = true) :
    isNameContinue c = true := by
  simp only [isNameStart, isNameContinue, Char.isAlphanum, Bool.or_eq_true] at h ⊢
  exact h.imp Or.inl id

/-- The characters of names are no blanks, dots, quotes or marks. -/
theorem of_isNameContinue {c : Char} (h : isNameContinue c = true) :
    isIgnored c = false ∧ c ≠ '.' ∧ c ≠ '"' ∧ Punctuator.ofChar? c = none := by
  have hgap : isGap c = false := by
    rw [Bool.eq_false_iff]
    intro hgap
    rw [(of_isGap hgap).2.1] at h
    cases h
  have hmark : Punctuator.ofChar? c = none := by
    cases hmark : Punctuator.ofChar? c with
    | none => rfl
    | some mark =>
      rw [(of_ofChar? hmark).2.1] at h
      cases h
  refine ⟨?_, ?_, ?_, hmark⟩
  · rw [isIgnored, hgap, Bool.false_or, Bool.or_eq_false_iff, beq_eq_false_iff_ne,
      beq_eq_false_iff_ne]
    constructor <;> rintro rfl <;> revert h <;> decide
  all_goals
    rintro rfl
    revert h
    decide

/-! ## Texts that write tokens -/

/-- A text writes given tokens, inside of any number of blocks and in front of any rest that it does
    not run into. -/
def Writes (text : String) (tokens : List Token) : Prop :=
  ∀ n rest more, Apart rest → Scans rest more →
    Scans (indentBy n text.toList ++ rest) (tokens ++ more)

theorem writes_empty : Writes "" [] := fun _ _ _ _ h => h

/-- A text on its own has the tokens that it writes. -/
theorem Writes.scans (h : Writes text tokens) : Scans text.toList tokens := by
  have hscan := h 0 [] [] apart_nil scans_nil
  have hsame : indentBy 0 text.toList = text.toList := by
    have hchar : ∀ c : Char,
        (if c = '\n' then '\n' :: List.replicate (2 * 0) ' ' else [c]) = [c] := by
      intro c
      by_cases hc : c = '\n' <;> simp [hc]
    simp only [indentBy, hchar, List.flatMap_singleton']
  simpa [hsame] using hscan

/-- The empty text writes nothing. -/
theorem Writes.eq_nil (h : Writes "" tokens) : tokens = [] := h.scans.unique scans_nil

/-- A text that writes something is not empty. -/
theorem Writes.isEmpty_eq_false (h : Writes text tokens) (hsome : tokens ≠ []) :
    text.isEmpty = false := by
  rw [Bool.eq_false_iff, Ne, String.isEmpty_iff]
  rintro rfl
  exact hsome h.eq_nil

/-- One text behind another, if the first does not run into it. -/
theorem Writes.append {back : String} (h : Writes text tokens) (hback : Writes back more)
    (hapart : Apart back.toList) : Writes (text ++ back) (tokens ++ more) := by
  intro n rest behind hrest hscan
  rw [String.toList_append, indentBy_append, List.append_assoc, List.append_assoc]
  exact h n _ _ ((apart_indentBy hapart).append hrest) (hback n rest behind hrest hscan)

/-- What writes a single token: it has no line break, and the token is scanned from it. -/
theorem writes_token {c : Char} {front : List Char} {token : Token} (hc : isIgnored c = false)
    (hbreak : '\n' ∉ front) (htext : text.toList = c :: front)
    (hscan : ∀ rest p, Apart rest →
      ∃ q, scanToken ⟨c :: (front ++ rest), p⟩ = .ok (token, ⟨rest, q⟩)) :
    Writes text [token] := by
  intro n rest more hrest h
  have hc' : '\n' ≠ c := by
    rintro rfl
    revert hc
    decide
  have hnone : '\n' ∉ c :: front := by simp [hc', hbreak]
  rw [htext, indentBy_eq_self hnone]
  exact h.token hc fun p => hscan rest p hrest

/-- Marks and blanks in front of a text. -/
theorem Writes.lead (h : Writes text tokens) (front : String) (hfront : isLead front = true) :
    Writes (front ++ text) (marksIn front ++ tokens) := by
  intro n rest more hrest hscan
  have htext := h n rest more hrest hscan
  rw [String.toList_append, indentBy_append, List.append_assoc, List.append_assoc]
  generalize indentBy n text.toList ++ rest = behind at htext
  rw [isLead] at hfront
  rw [marksIn]
  -- The characters of the front, from the last to the first.
  generalize front.toList = chars at hfront
  induction chars with
  | nil => exact htext
  | cons c cs ih =>
    rw [List.all_cons, Bool.and_eq_true, Bool.or_eq_true] at hfront
    have hcs := ih hfront.2
    rw [indentBy_cons]
    rcases hfront.1 with hgap | hmark
    · rw [List.filterMap_cons_none (by simp [(of_isGap hgap).1])]
      split
      · rw [List.cons_append, List.cons_append, List.append_assoc]
        refine Scans.gap ?_ rfl
        induction 2 * n with
        | zero => exact hcs
        | succ k ihk => exact ihk.gap rfl
      · exact hcs.gap hgap
    · obtain ⟨mark, hmark⟩ := Option.isSome_iff_exists.1 hmark
      have hignored := (of_ofChar? hmark).1
      have hbreak : c ≠ '\n' := by
        rintro rfl
        cases hmark
      rw [if_neg hbreak, List.filterMap_cons_some (b := .punctuator mark) (by simp [hmark])]
      have hfirst : Scans (c :: ([] ++ (indentBy n cs ++ behind))) (.punctuator mark :: _) :=
        hcs.token hignored fun p => ⟨p.right 1, scanToken_mark hmark _ p⟩
      simpa using hfirst

/-- Whether a text is made of marks and blanks and keeps apart what it stands between. -/
def isDivider (text : String) : Bool := !text.isEmpty && isLead text

theorem isLead_of_isDivider (h : isDivider text = true) : isLead text = true :=
  (Bool.and_eq_true_iff.1 h).2

/-- Nothing runs into a divider, whatever is behind it. -/
theorem apart_of_isDivider (h : isDivider text = true) (back : String) :
    Apart (text ++ back).toList := by
  refine apart_append_left (apart_of_isLead (isLead_of_isDivider h)) ?_ back
  rintro rfl
  cases h

/-- Marks and blanks. -/
theorem writes_lead (h : isLead text = true) : Writes text (marksIn text) := by
  simpa using writes_empty.lead text h

/-- Marks and blanks behind a text. -/
theorem Writes.closed (h : Writes text tokens) (back : String) (hback : isLead back = true) :
    Writes (text ++ back) (tokens ++ marksIn back) :=
  h.append (writes_lead hback) (apart_of_isLead hback)

/-- Two texts with a divider between them. -/
theorem Writes.join {back : String} (h : Writes text tokens) (divider : String)
    (hback : Writes back more) (hdivider : isDivider divider = true) :
    Writes (text ++ divider ++ back) (tokens ++ (marksIn divider ++ more)) := by
  rw [String.append_assoc]
  have hlead := hback.lead divider (isLead_of_isDivider hdivider)
  exact h.append hlead (apart_of_isDivider hdivider back)

/-- The dots of a spread in front of a text. -/
theorem Writes.spread (h : Writes text tokens) :
    Writes ("..." ++ text) (.punctuator .spread :: tokens) := by
  intro n rest more hrest hscan
  have htext := h n rest more hrest hscan
  have hdots : indentBy n ("..." ++ text).toList ++ rest
      = '.' :: (['.', '.'] ++ (indentBy n text.toList ++ rest)) := by
    rw [String.toList_append, indentBy_append, indentBy_eq_self (by decide)]
    simp
  rw [hdots]
  exact htext.token rfl fun p => ⟨p.right 3, rfl⟩

/-- A name. -/
theorem writes_name (h : IsNameText text) : Writes text [.name text] := by
  obtain ⟨c, hhead, hstart⟩ := h.starts
  obtain ⟨front, htext⟩ : ∃ front, text.toList = c :: front := by
    cases hlist : text.toList with
    | nil => simp [hlist] at hhead
    | cons x front => exact ⟨front, by simp_all⟩
  have hcontinues : ∀ x ∈ c :: front, isNameContinue x = true := htext ▸ h.continues
  have hbreak : '\n' ∉ front := fun hbreak =>
    absurd (hcontinues _ (List.mem_cons_of_mem _ hbreak)) (by decide)
  obtain ⟨hignored, hdot, hquote, hmark⟩ := of_isNameContinue (hcontinues c List.mem_cons_self)
  refine writes_token hignored hbreak htext fun rest p hrest => ?_
  have hname : (c :: (front ++ rest)).takeWhile isNameContinue = c :: front :=
    takeWhile_append_of_stop hcontinues fun x hx => (hrest x hx).1
  refine ⟨p.right (c :: front).length, ?_⟩
  simp only [scanToken]
  split
  · contradiction
  · simp_all
  · simp_all
  · simp_all
  · rename_i heq
    cases heq
    have htoken : String.ofList (c :: front) = text := by rw [← htext, String.ofList_toList]
    simp [hmark, hstart, hname, htoken, Cursor.skip]

/-! ## Parts put together -/

/-- A text in an indented block. -/
theorem Writes.indented (h : Writes text tokens) : Writes (indent text) tokens := by
  have hbreaks : Writes (String.ofList (indentBreaks text.toList)) tokens := by
    intro n rest more hrest hscan
    rw [String.toList_ofList, indentBy_indentBreaks]
    exact h (n + 1) rest more hrest hscan
  rw [indent, surround]
  split
  · rename_i hempty
    rw [String.isEmpty_iff.1 hempty] at hbreaks
    exact hbreaks
  · rw [String.append_empty]
    exact hbreaks.lead "  " rfl

/-- A text with marks around it, or no text. -/
theorem Writes.surrounded (h : Writes text tokens) (hempty : tokens = [] → text = "")
    (before after : String) (hbefore : isLead before = true) (hafter : isLead after = true) :
    Writes (surround before text after)
      (if tokens = [] then [] else marksIn before ++ tokens ++ marksIn after) := by
  rw [surround]
  by_cases htokens : tokens = []
  · rw [if_pos htokens, hempty htokens]
    exact writes_empty
  · rw [h.isEmpty_eq_false htokens, if_neg htokens, List.append_assoc, String.append_assoc]
    exact (h.closed after hafter).lead before hbefore

/-- Texts with a divider between each two. -/
theorem writes_intercalate {α : Type} {write : α → String} {tokens : α → List Token}
    (divider : String) (hdivider : isDivider divider = true) {xs : List α}
    (h : ∀ x ∈ xs, Writes (write x) (tokens x)) :
    Writes (divider.intercalate (xs.map write))
      ((marksIn divider).intercalate (xs.map tokens)) := by
  induction xs with
  | nil => exact writes_empty
  | cons x xs ih =>
    have hx := h x List.mem_cons_self
    have hxs := ih fun y hy => h y (List.mem_cons_of_mem _ hy)
    cases xs with
    | nil => simpa [List.intercalate] using hx
    | cons y ys =>
      rw [List.map_cons, List.map_cons, String.intercalate_cons_of_ne_nil (by simp)]
      have hjoin := hx.join divider hxs hdivider
      simpa [List.intercalate] using hjoin

/-- No parts. -/
theorem writes_noParts (separator : String) : Writes (joinParts separator []) [] := writes_empty

/-- A part in front of others, which are joined by blanks. A part without text writes nothing. -/
theorem Writes.part (separator : String) {parts : List String} (h : Writes text tokens)
    (hparts : Writes (joinParts separator parts) more) (hseparator : isDivider separator = true)
    (hnone : marksIn separator = []) :
    Writes (joinParts separator (text :: parts)) (tokens ++ more) := by
  cases hempty : text.isEmpty with
  | true =>
    rw [String.isEmpty_iff.1 hempty] at h
    rw [h.eq_nil, joinParts, List.filter_cons_of_neg (by simp [hempty])]
    exact hparts
  | false =>
    rw [joinParts, List.filter_cons_of_pos (by simp [hempty])]
    rw [joinParts] at hparts
    by_cases hlast : parts.filter (fun part => !part.isEmpty) = []
    · rw [hlast] at hparts
      rw [hlast, String.intercalate_singleton, hparts.eq_nil, List.append_nil]
      exact h
    · rw [String.intercalate_cons_of_ne_nil hlast]
      have hjoin := h.join separator hparts hseparator
      rwa [hnone] at hjoin

/-- A part with no other behind it. -/
theorem Writes.lastPart (separator : String) (h : Writes text tokens)
    (hseparator : isDivider separator = true) (hnone : marksIn separator = []) :
    Writes (joinParts separator [text]) tokens := by
  simpa using h.part separator (writes_noParts separator) hseparator hnone

/-- Parts of one kind, joined by blanks. -/
theorem writes_joinParts {α : Type} {write : α → String} {tokens : α → List Token}
    (separator : String) (hseparator : isDivider separator = true) (hnone : marksIn separator = [])
    {xs : List α} (h : ∀ x ∈ xs, Writes (write x) (tokens x)) :
    Writes (joinParts separator (xs.map write)) (xs.flatMap tokens) := by
  induction xs with
  | nil => exact writes_noParts separator
  | cons x xs ih =>
    have hxs := ih fun y hy => h y (List.mem_cons_of_mem _ hy)
    exact (h x List.mem_cons_self).part separator hxs hseparator hnone

end SchemaView.Sdl
