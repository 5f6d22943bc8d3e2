import SchemaView.Proofs.BlockValue
import SchemaView.Proofs.CoordinateText
import SchemaView.Proofs.Layout

/-!
# Block strings are read as they are written

A block string is printed line by line, in a block of its members perhaps, which indents its lines.
Scanning cuts the printed text into its lines again, and what they were indented by is the
indentation that they share.

## Key results

- `scanBlockString_escapeQuotes`: raw lines are scanned as they were
- `BlockValue.valueOfLines_spread`: indented lines write the value that they had
- `BlockValue.exists_frame`: what is printed between a value and its quotes
- `BlockValue.writes`: a printed block string writes its token
-/

namespace SchemaView.Sdl

open BlockString

variable {lines : List (List Char)}

/-! ## Raw lines are scanned as they were -/

/-- Only in front of triple quotes are there escapes. -/
theorem escapeQuotes_cons_of_ne {c : Char} {chars : List Char}
    (h : ∀ after, c :: chars ≠ '"' :: '"' :: '"' :: after) :
    escapeQuotes (c :: chars) = c :: escapeQuotes chars := by
  rw [escapeQuotes]
  rintro after rfl rfl
  exact h after rfl

/-- Text without quotes needs no escapes. -/
theorem escapeQuotes_append {front : List Char} (h : '"' ∉ front) (back : List Char) :
    escapeQuotes (front ++ back) = front ++ escapeQuotes back := by
  induction front with
  | nil => rfl
  | cons c front ih =>
    rw [List.mem_cons, not_or] at h
    have hc : ∀ after, c :: (front ++ back) ≠ '"' :: '"' :: '"' :: after := fun after heq =>
      h.1 (List.cons.inj heq).1.symm
    rw [List.cons_append, escapeQuotes_cons_of_ne hc, ih h.2, List.cons_append]

/-- A line break behind a text is no part of a triple quote. -/
theorem escapeQuotes_append_break (chars : List Char) :
    escapeQuotes (chars ++ ['\n']) = escapeQuotes chars ++ ['\n'] := by
  fun_induction escapeQuotes chars with
  | case1 chars ih => simp [escapeQuotes, ih]
  | case2 c chars htriple ih =>
    have hnone : ∀ after, c :: (chars ++ ['\n']) ≠ '"' :: '"' :: '"' :: after := by
      intro after heq
      match chars, htriple, heq with
      | [], _, heq => simp at heq
      | [x], _, heq => simp at heq
      | x :: y :: chars, htriple, heq =>
        obtain ⟨rfl, rfl, rfl, -⟩ : c = '"' ∧ x = '"' ∧ y = '"' ∧ chars ++ ['\n'] = after := by
          simpa using heq
        exact htriple chars rfl rfl
    rw [List.cons_append, escapeQuotes_cons_of_ne hnone, ih, List.cons_append]
  | case3 => rfl

/-- In a block there are more blanks in a text, and nothing else. -/
theorem mem_of_mem_indentBy {n : Nat} {c : Char} {chars : List Char} (h : c ∈ indentBy n chars) :
    c = ' ' ∨ c ∈ chars := by
  obtain ⟨x, hx, hc⟩ := List.mem_flatMap.1 h
  by_cases hbreak : x = '\n'
  · rw [if_pos hbreak] at hc
    rcases List.mem_cons.1 hc with rfl | hc
    · exact Or.inr (hbreak ▸ hx)
    · exact Or.inl (List.eq_of_mem_replicate hc)
  · rw [if_neg hbreak, List.mem_singleton] at hc
    exact Or.inr (hc ▸ hx)

/-- A text in a block starts with a quote if it does so on its own. -/
theorem of_indentBy_eq_quote {n : Nat} {chars behind : List Char}
    (h : indentBy n chars = '"' :: behind) :
    ∃ rest, chars = '"' :: rest ∧ indentBy n rest = behind := by
  cases chars with
  | nil => cases h
  | cons c chars =>
    rw [indentBy_cons] at h
    by_cases hc : c = '\n'
    · simp [hc] at h
    · simp only [hc, if_false, List.singleton_append, List.cons.injEq] at h
      exact ⟨chars, by rw [h.1], h.2⟩

/-- Escapes are the same in a block. -/
theorem escapeQuotes_indentBy (n : Nat) (chars : List Char) :
    escapeQuotes (indentBy n chars) = indentBy n (escapeQuotes chars) := by
  fun_induction escapeQuotes chars with
  | case1 chars ih => simp [indentBy_cons, escapeQuotes, ih]
  | case2 c chars htriple ih =>
    rw [indentBy_cons, indentBy_cons]
    by_cases hc : c = '\n'
    · rw [if_pos hc, escapeQuotes_append (by simp), ih]
    · have hnone : ∀ after, c :: indentBy n chars ≠ '"' :: '"' :: '"' :: after := by
        intro after heq
        obtain ⟨rfl, hsecond⟩ := List.cons.inj heq
        obtain ⟨_, rfl, hthird⟩ := of_indentBy_eq_quote hsecond
        obtain ⟨rest, rfl, -⟩ := of_indentBy_eq_quote hthird
        exact htriple rest rfl rfl
      rw [if_neg hc, List.singleton_append, escapeQuotes_cons_of_ne hnone, ih,
        List.singleton_append]
  | case3 => rfl

/-- Escaped text that starts with a quote is of text that starts with one, but with no triple
    quote. -/
theorem of_escapeQuotes_cons {x : Char} {chars rest behind : List Char}
    (h : escapeQuotes (x :: chars) ++ rest = '"' :: behind) :
    x = '"' ∧ escapeQuotes chars ++ rest = behind ∧ ∀ after, chars ≠ '"' :: '"' :: after := by
  unfold escapeQuotes at h
  split at h
  · simp at h
  · rename_i htriple heq
    cases heq
    rw [List.cons_append, List.cons.injEq] at h
    exact ⟨h.1, h.2, fun after hafter => htriple after h.1 hafter⟩
  · simp_all

/-- Escaped text without a quote at the end starts with no triple quote. -/
theorem escapeQuotes_append_ne {x : Char} {chars : List Char}
    (hlast : (x :: chars).getLast? ≠ some '"') (rest behind : List Char) :
    escapeQuotes (x :: chars) ++ rest ≠ '"' :: '"' :: '"' :: behind := by
  intro h
  obtain ⟨rfl, h, htriple⟩ := of_escapeQuotes_cons h
  match chars with
  | [] => exact hlast rfl
  | y :: chars =>
    obtain ⟨rfl, h, -⟩ := of_escapeQuotes_cons h
    match chars with
    | [] => exact hlast rfl
    | z :: chars =>
      obtain ⟨rfl, -, -⟩ := of_escapeQuotes_cons h
      exact htriple chars rfl

/-- Escaped text up to the closing quotes is scanned to its lines. -/
theorem scanBlockString_escapeQuotes (chars : List Char) (hreturn : '\r' ∉ chars)
    (hlast : ∀ c, chars.getLast? = some c → c ≠ '"' ∧ c ≠ '\\') (line : List Char)
    (lines : List (List Char)) (rest : List Char) (p : Position) : ∃ q,
    scanBlockString line lines (escapeQuotes chars ++ '"' :: '"' :: '"' :: rest) p
      = .ok (.blockString (String.ofList (valueOfLines
          (lines.reverse ++ Text.cutAt '\n' line chars))), ⟨rest, q⟩) := by
  fun_induction escapeQuotes chars generalizing line lines p with
  | case1 chars ih =>
    have hlast' : ∀ c, chars.getLast? = some c → c ≠ '"' ∧ c ≠ '\\' := by
      intro c hc
      cases chars with
      | nil => cases hc
      | cons x chars => exact hlast c (by simpa using hc)
    obtain ⟨q, hscan⟩ := ih (by simp_all) hlast' ('"' :: '"' :: '"' :: line) lines (p.right 4)
    refine ⟨q, ?_⟩
    rw [List.cons_append, List.cons_append, List.cons_append, List.cons_append, scanBlockString,
      hscan]
    simp [Text.cutAt]
  | case2 c chars htriple ih =>
    have hescaped : escapeQuotes (c :: chars) = c :: escapeQuotes chars :=
      escapeQuotes_cons_of_ne fun after heq => by
        obtain ⟨rfl, rfl⟩ := List.cons.inj heq
        exact htriple after rfl rfl
    have hquote : (c :: chars).getLast? ≠ some '"' := fun h => (hlast _ h).1 rfl
    have hlast' : ∀ x, chars.getLast? = some x → x ≠ '"' ∧ x ≠ '\\' := by
      intro x hx
      cases chars with
      | nil => cases hx
      | cons y chars => exact hlast x (by simpa using hx)
    rw [List.mem_cons, not_or] at hreturn
    have ih' := ih hreturn.2 hlast'
    rw [List.cons_append]
    unfold scanBlockString
    split
    · rename_i heq
      rw [← List.cons_append, ← hescaped] at heq
      exact absurd heq (escapeQuotes_append_ne hquote _ _)
    · rename_i heq
      rw [List.cons.injEq] at heq
      obtain ⟨rfl, heq⟩ := heq
      cases chars with
      | nil => exact absurd rfl (hlast '\\' rfl).2
      | cons y chars => exact absurd heq (escapeQuotes_append_ne (fun h => (hlast' _ h).1 rfl) _ _)
    · rename_i heq
      exact absurd (List.cons.inj heq).1.symm hreturn.1
    · rename_i p' _ _ x behind _ _ _ heq
      rw [List.cons.injEq] at heq
      obtain ⟨rfl, rfl⟩ := heq
      by_cases hbreak : c = '\n'
      · obtain ⟨q, hscan⟩ := ih' [] (line.reverse :: lines) p'.nextLine
        exact ⟨q, by simpa [hbreak, Text.isLineBreak, Text.cutAt] using hscan⟩
      · obtain ⟨q, hscan⟩ := ih' (c :: line) lines (p'.right 1)
        exact ⟨q, by simpa [hbreak, Ne.symm hreturn.1, Text.isLineBreak, Text.cutAt] using hscan⟩
    · rename_i heq
      cases heq
  | case3 => exact ⟨p.right 3, by simp [scanBlockString, Text.cutAt]⟩

/-! ## The layout of a printed value -/

/-- Escapes add backslashes only. -/
theorem count_escapeQuotes {c : Char} (hc : c ≠ '\\') (chars : List Char) :
    (escapeQuotes chars).count c = chars.count c := by
  fun_induction escapeQuotes chars with
  | case1 chars ih => simp [List.count_cons, ih, Ne.symm hc]
  | case2 x chars _ ih => simp [List.count_cons, ih]
  | case3 => rfl

/-- Without carriage returns the line feeds separate the lines. -/
theorem cutLines_eq_cutAt {chars : List Char} (h : '\r' ∉ chars) (part : List Char) :
    Text.cutLines part chars = Text.cutAt '\n' part chars := by
  fun_induction Text.cutLines part chars with
  | case1 => rfl
  | case2 => simp at h
  | case3 part c chars _ hbreak ih =>
    rw [List.mem_cons, not_or] at h
    have hc : c = '\n' := by
      simpa [Text.isLineBreak, Ne.symm h.1] using hbreak
    rw [Text.cutAt, if_pos hc, ih h.2]
  | case4 part c chars _ hbreak ih =>
    rw [List.mem_cons, not_or] at h
    have hc : c ≠ '\n' := by
      rintro rfl
      exact hbreak rfl
    rw [Text.cutAt, if_neg hc, ih h.2]

theorem length_cutAt (sep : Char) (part chars : List Char) :
    (Text.cutAt sep part chars).length = chars.count sep + 1 := by
  induction chars generalizing part with
  | nil => rfl
  | cons c chars ih =>
    rw [Text.cutAt]
    by_cases hc : c = sep <;> simp [hc, ih]


/-- Whether the text of a value starts with indentation. -/
def startsIndented (value : String) : Bool :=
  match value.toList.head? with
  | none => false
  | some c => isIndent c

/-- Whether the closing quotes of a value stand on a line of their own. -/
def isSpread (value : String) : Bool :=
  let escaped := escapeQuotes value.toList
  let endsInEscape := ['\\', '"', '"', '"'].isSuffixOf escaped
  (Text.lines escaped).length > 1 || value.toList.length > 70
    || (value.toList.getLast? == some '"' && !endsInEscape) || value.toList.getLast? == some '\\'
    || endsInEscape

/-- Whether the text of a value starts on the line below the opening quotes. -/
def startsBelow (value : String) : Bool :=
  let lines := Text.lines (escapeQuotes value.toList)
  (isSpread value && !(!(lines.length > 1) && startsIndented value)) ||
    (lines.length > 1 && (lines.drop 1).all fun line =>
      match line.head? with
      | none => true
      | some c => isIndent c)

theorem render_eq (value : String) : BlockString.render value
    = "\"\"\"" ++ (if startsBelow value then "\n" else "")
      ++ String.ofList (escapeQuotes value.toList)
        ++ (if isSpread value then "\n" else "") ++ "\"\"\"" := rfl

/-- What is not spread does not run into the closing quotes. -/
theorem getLast_of_not_isSpread {value : String} (h : isSpread value = false) :
    ∀ c, value.toList.getLast? = some c → c ≠ '"' ∧ c ≠ '\\' := by
  intro c hc
  simp only [isSpread, hc, Bool.or_eq_false_iff, Bool.and_eq_false_iff, Bool.not_eq_false',
    beq_eq_false_iff_ne, ne_eq, Option.some.injEq] at h
  obtain ⟨⟨⟨-, hquote⟩, hbackslash⟩, hescape⟩ := h
  refine ⟨?_, hbackslash⟩
  rcases hquote with hquote | hquote
  · exact hquote
  · rw [hescape] at hquote
    cases hquote

/-! ## The lines of an indented text -/

/-- The blanks behind a line break inside of so many blocks. -/
def blanks (n : Nat) : List Char := List.replicate (2 * n) ' '

theorem isIndent_of_mem_blanks {n : Nat} : ∀ c ∈ blanks n, isIndent c = true := by
  intro c hc
  rw [List.eq_of_mem_replicate hc]
  rfl

/-- Blanks in front of a line indent it. -/
theorem of_blanks (n : Nat) (line : List Char) :
    isBlankLine (blanks n ++ line) = isBlankLine line ∧
      indentOf (blanks n ++ line) = 2 * n + indentOf line := by
  have hall : (blanks n).all isIndent = true := List.all_eq_true.2 isIndent_of_mem_blanks
  constructor
  · rw [isBlankLine, List.all_append, hall, Bool.true_and, isBlankLine]
  · rw [indentOf, List.takeWhile_append_of_pos isIndent_of_mem_blanks, List.length_append, indentOf,
      blanks, List.length_replicate]

/-- In a block all lines but the first are indented. -/
theorem indentBy_intercalate (n : Nat) (first : List Char) (others : List (List Char))
    (h : ∀ l ∈ first :: others, '\n' ∉ l) :
    indentBy n (['\n'].intercalate (first :: others))
      = ['\n'].intercalate (first :: others.map (blanks n ++ ·)) := by
  induction others generalizing first with
  | nil =>
    rw [List.map_nil, List.intercalate_singleton, indentBy_eq_self (h first List.mem_cons_self)]
  | cons second others ih =>
    have hrest := ih second fun l hl => h l (List.mem_cons_of_mem _ hl)
    have hbreak : indentBy n ['\n'] = '\n' :: blanks n := by simp [indentBy, blanks]
    rw [List.intercalate_cons_cons, indentBy_append, indentBy_append, hbreak,
      indentBy_eq_self (h first List.mem_cons_self), hrest, List.map_cons,
      List.intercalate_cons_cons]
    -- The blanks are in front of the second line.
    cases others <;> simp [List.intercalate_cons_cons]

/-- The last line of a text is behind the last line break. -/
theorem intercalate_append_singleton (h : lines ≠ []) (last : List Char) :
    ['\n'].intercalate (lines ++ [last]) = ['\n'].intercalate lines ++ '\n' :: last := by
  induction lines with
  | nil => exact absurd rfl h
  | cons line lines ih =>
    cases lines with
    | nil => simp [List.intercalate_cons_cons]
    | cons next lines =>
      have hrest := ih (List.cons_ne_nil next lines)
      rw [List.cons_append] at hrest
      rw [List.cons_append, List.cons_append, List.intercalate_cons_cons, hrest,
        List.intercalate_cons_cons]
      simp

/-- The lines that are scanned of a text in a block. -/
theorem cutAt_indentBy (n : Nat) (first : List Char) (others : List (List Char))
    (h : ∀ l ∈ first :: others, '\n' ∉ l) :
    Text.cutAt '\n' [] (indentBy n (['\n'].intercalate (first :: others)))
      = first :: others.map (blanks n ++ ·) := by
  rw [indentBy_intercalate n first others h]
  refine Text.cutAt_intercalate (List.cons_ne_nil _ _) ?_
  intro l hl
  rcases List.mem_cons.1 hl with rfl | hl
  · exact h _ List.mem_cons_self
  · obtain ⟨l', hl', rfl⟩ := List.mem_map.1 hl
    have hbreak := h l' (List.mem_cons_of_mem _ hl')
    simp [blanks, hbreak]

namespace BlockValue

variable (b : BlockValue)

/-- The characters of a value. -/
def chars : List Char := ['\n'].intercalate b.lines

/-- Between two line breaks a value is written with its indentation, if some line has none. -/
theorem valueOfLines_spread (n : Nat) (h : ∃ l ∈ b.lines, isBlankLine l = false ∧ indentOf l = 0) :
    valueOfLines ([] :: (b.lines ++ [[]]).map (blanks n ++ ·)) = b.chars := by
  have hindent : commonIndent ((b.lines ++ [[]]).map (blanks n ++ ·)) = 2 * n := by
    obtain ⟨l, hl, hblank, hzero⟩ := h
    obtain ⟨hblank', hindent'⟩ := of_blanks n l
    have hmem : blanks n ++ l ∈ (b.lines ++ [[]]).map (blanks n ++ ·) :=
      List.mem_map_of_mem (List.mem_append_left _ hl)
    obtain ⟨⟨l₁, hl₁, -, hcommon⟩, hleast⟩ :=
      exists_commonIndent ⟨_, hmem, hblank'.trans hblank⟩
    have hle := hleast _ hmem (hblank'.trans hblank)
    obtain ⟨l₂, -, rfl⟩ := List.mem_map.1 hl₁
    have hge := (of_blanks n l₂).2
    omega
  have hdedent : ((b.lines ++ [[]]).map (blanks n ++ ·)).map (List.drop (2 * n)) =
      b.lines ++ [[]] := by
    rw [List.map_map, List.map_congr_left (g := id), List.map_id]
    intro l _
    simp [blanks]
  have htrim : trimBlankLines ([[]] ++ b.lines ++ [[]]) = b.lines :=
    trimBlankLines_append (by simp [isBlankLine]) (by simp [isBlankLine]) b.head_spec b.last_spec
  rw [valueOfLines, hindent, hdedent]
  exact congrArg _ htrim

/-- A single line keeps its indentation behind the opening quotes. -/
theorem valueOfLines_line (n : Nat) {line : List Char} (h : b.lines = [line]) :
    valueOfLines [line, blanks n] = b.chars := by
  have hblank : isBlankLine (blanks n) = true := List.all_eq_true.2 isIndent_of_mem_blanks
  have hindent : commonIndent [blanks n] = 0 := by simp [commonIndent, hblank]
  have htrim : trimBlankLines ([] ++ b.lines ++ [blanks n]) = b.lines :=
    trimBlankLines_append (by simp) (by simpa using hblank) b.head_spec b.last_spec
  rw [h, List.nil_append, List.singleton_append] at htrim
  simp [valueOfLines, hindent, chars, h, htrim]

/-- A text on one line is its value. -/
theorem valueOfLines_short (h : b.lines.length ≤ 1) : valueOfLines [b.chars] = b.chars := by
  have htrim : trimBlankLines ([] ++ b.lines ++ []) = b.lines :=
    trimBlankLines_append (by simp) (by simp) b.head_spec b.last_spec
  match hlines : b.lines, h with
  | [], _ =>
    rw [chars, hlines]
    rfl
  | [line], _ =>
    rw [hlines, List.nil_append, List.append_nil] at htrim
    simp [valueOfLines, commonIndent, chars, hlines, htrim]

/-! ## The printed text -/

theorem break_not_mem {line : List Char} (h : line ∈ b.lines) : '\n' ∉ line := fun hbreak =>
  absurd (b.unbroken line h _ hbreak) (by decide)

theorem return_not_mem : '\r' ∉ b.chars := by
  have hlines : ∀ lines : List (List Char), (∀ l ∈ lines, '\r' ∉ l) →
      '\r' ∉ ['\n'].intercalate lines := by
    intro lines h
    induction lines with
    | nil => simp
    | cons l lines ih =>
      have hl := h l List.mem_cons_self
      have hrest := ih fun x hx => h x (List.mem_cons_of_mem _ hx)
      cases lines with
      | nil => simpa using hl
      | cons x lines =>
        rw [List.intercalate_cons_cons]
        simp [hl, hrest]
  exact hlines b.lines fun l hl hreturn => absurd (b.unbroken l hl _ hreturn) (by decide)

/-- A value of at most one line has no line break. -/
theorem break_not_mem_chars (h : b.lines.length ≤ 1) : '\n' ∉ b.chars := by
  match hlines : b.lines, h with
  | [], _ => simp [chars, hlines]
  | [line], _ =>
    have hline : line ∈ b.lines := by simp [hlines]
    simpa [chars, hlines] using b.break_not_mem hline

/-- Escapes do not change the number of lines. -/
theorem length_lines_escaped :
    (Text.lines (escapeQuotes b.chars)).length = max 1 b.lines.length := by
  have hreturn : '\r' ∉ escapeQuotes b.chars := by
    rw [← List.count_eq_zero, count_escapeQuotes (by decide), List.count_eq_zero]
    exact b.return_not_mem
  have hcount : (Text.lines (escapeQuotes b.chars)).length = b.chars.count '\n' + 1 := by
    rw [Text.lines, cutLines_eq_cutAt hreturn, length_cutAt, count_escapeQuotes (by decide)]
  cases hvalue : b.lines with
  | nil =>
    rw [hcount, chars, hvalue]
    rfl
  | cons line lines =>
    have hcut : Text.cutAt '\n' [] b.chars = b.lines :=
      Text.cutAt_intercalate (by simp [hvalue]) fun l hl => b.break_not_mem hl
    have hlength := congrArg List.length hcut
    rw [length_cutAt] at hlength
    rw [hcount, hlength, hvalue, List.length_cons]
    omega

/-- What stands between a value and its quotes. -/
inductive Frame : List Char → List Char → Prop where
  /-- The quotes stand on lines of their own, and some line of the value is not indented. -/
  | apart (h : ∃ l ∈ b.lines, isBlankLine l = false ∧ indentOf l = 0) : Frame ['\n'] ['\n']
  /-- The closing quotes stand below the only line of the value. -/
  | below (line : List Char) (h : b.lines = [line]) : Frame [] ['\n']
  /-- All stands on one line, which does not run into the closing quotes. -/
  | inline (h : b.lines.length ≤ 1)
      (hlast : ∀ c, b.chars.getLast? = some c → c ≠ '"' ∧ c ≠ '\\') : Frame [] []

/-- How a value is printed. -/
theorem exists_frame : ∃ before after,
    (BlockString.render b.text).toList
      = ['"', '"', '"'] ++ (before ++ escapeQuotes b.chars ++ after) ++ ['"', '"', '"'] ∧
    b.Frame before after := by
  have hchars : b.text.toList = b.chars := String.toList_ofList
  have hlines := b.length_lines_escaped
  have hopening : "\"\"\"".toList = ['"', '"', '"'] := rfl
  refine ⟨if startsBelow b.text then ['\n'] else [], if isSpread b.text then ['\n'] else [], ?_, ?_⟩
  · rw [render_eq, hchars]
    cases startsBelow b.text <;> cases isSpread b.text <;> simp
  · match hvalue : b.lines with
    | [] =>
      have hempty : b.text = "" := by
        rw [BlockValue.text, hvalue]
        rfl
      have hnone : b.chars = [] := by
        rw [chars, hvalue]
        rfl
      have hbefore : startsBelow "" = false := rfl
      have hafter : isSpread "" = false := rfl
      rw [hempty, hbefore, hafter]
      exact .inline (by simp [hvalue]) (by simp [hnone])
    | [line] =>
      have hline : b.chars = line := by
        rw [chars, hvalue, List.intercalate_singleton]
      have hblank : isBlankLine line = false := b.head_spec line (by rw [hvalue]; rfl)
      rw [hvalue] at hlines
      have hbelow : startsBelow b.text = (isSpread b.text && !startsIndented b.text) := by
        simp [startsBelow, hchars, hlines]
      rw [hbelow]
      cases hspread : isSpread b.text with
      | false => exact .inline (by simp [hvalue]) (hchars ▸ getLast_of_not_isSpread hspread)
      | true =>
        cases hindented : startsIndented b.text with
        | true => exact .below line hvalue
        | false =>
          refine .apart ⟨line, by simp [hvalue], hblank, ?_⟩
          cases line with
          | nil => rfl
          | cons c line =>
            rw [startsIndented, hchars, hline] at hindented
            have hc : isIndent c = false := hindented
            simp [indentOf, hc]
    | first :: second :: others =>
      rw [hvalue] at hlines
      have hseveral : (Text.lines (escapeQuotes b.text.toList)).length > 1 := by
        rw [hchars, hlines]
        simp
      have hspread : isSpread b.text = true := by simp [isSpread, hseveral]
      have hbelow : startsBelow b.text = true := by simp [startsBelow, hspread, hseveral]
      rw [hbelow, hspread]
      exact .apart (b.outdented (by simp [hvalue]))

/-- The text between the quotes is scanned to the value, however far it is indented. -/
theorem scanBlockString_frame {before after : List Char}
    (h : b.Frame before after) (n : Nat) (rest : List Char) (p : Position) : ∃ q,
    scanBlockString [] [] (indentBy n (before ++ escapeQuotes b.chars ++ after)
        ++ '"' :: '"' :: '"' :: rest) p = .ok (.blockString b.text, ⟨rest, q⟩) := by
  have hescaped : before ++ escapeQuotes b.chars ++ after
      = escapeQuotes (before ++ b.chars ++ after) := by
    cases h with
    | apart => rw [escapeQuotes_append_break, escapeQuotes_append (by simp)]
    | below => rw [List.nil_append, List.nil_append, escapeQuotes_append_break]
    | inline => simp
  have hbreaks : ∀ l ∈ b.lines ++ [[]], '\n' ∉ l := by
    simpa [or_imp, forall_and] using fun l => b.break_not_mem
  have hreturn : '\r' ∉ indentBy n (before ++ b.chars ++ after) := by
    intro hmem
    have hchars := (mem_of_mem_indentBy hmem).resolve_left (by decide)
    cases h <;> simp [b.return_not_mem] at hchars
  have hlast : ∀ c, (indentBy n (before ++ b.chars ++ after)).getLast? = some c →
      c ≠ '"' ∧ c ≠ '\\' := by
    intro c hc
    have hspread : after = ['\n'] → c ≠ '"' ∧ c ≠ '\\' := by
      rintro rfl
      have hbreak : indentBy n ['\n'] = '\n' :: blanks n := by simp [indentBy, blanks]
      rw [indentBy_append, hbreak, List.getLast?_append,
        List.getLast?_eq_some_getLast (List.cons_ne_nil _ _), Option.some_or] at hc
      have hmem := List.getLast_mem (List.cons_ne_nil '\n' (blanks n))
      rw [Option.some.inj hc, List.mem_cons] at hmem
      rcases hmem with rfl | hmem
      · decide
      · rw [List.eq_of_mem_replicate hmem]
        decide
    cases h with
    | apart => exact hspread rfl
    | below => exact hspread rfl
    | inline hshort hplain =>
      rw [List.nil_append, List.append_nil, indentBy_eq_self (b.break_not_mem_chars hshort)] at hc
      exact hplain c hc
  have hvalue : valueOfLines (Text.cutAt '\n' [] (indentBy n (before ++ b.chars ++ after)))
      = b.chars := by
    cases h with
    | apart hsome =>
      have hlines : b.lines ≠ [] := List.ne_nil_of_mem hsome.choose_spec.1
      have hraw : ['\n'] ++ b.chars ++ ['\n'] = ['\n'].intercalate ([] :: (b.lines ++ [[]])) := by
        obtain ⟨line, lines, hsplit⟩ := List.exists_cons_of_ne_nil hlines
        have hback := intercalate_append_singleton (List.cons_ne_nil line lines) []
        calc ['\n'] ++ b.chars ++ ['\n']
            = '\n' :: (['\n'].intercalate (line :: lines) ++ ['\n']) := by rw [chars, hsplit]; rfl
          _ = '\n' :: ['\n'].intercalate (line :: lines ++ [[]]) := by rw [hback]
          _ = ['\n'].intercalate ([] :: (b.lines ++ [[]])) := by
            rw [hsplit, List.cons_append, List.intercalate_cons_cons]
            rfl
      rw [hraw, cutAt_indentBy n [] _ (by simpa using hbreaks)]
      exact b.valueOfLines_spread n hsome
    | below line hline =>
      have hraw : [] ++ b.chars ++ ['\n'] = ['\n'].intercalate (line :: [[]]) := by
        simp [chars, hline, List.intercalate_cons_cons]
      rw [hraw, cutAt_indentBy n line _ (by simpa [hline] using hbreaks)]
      simpa using b.valueOfLines_line n hline
    | inline hshort =>
      have hraw : [] ++ b.chars ++ [] = ['\n'].intercalate (b.chars :: []) := by simp
      rw [hraw, cutAt_indentBy n b.chars [] (by simpa using b.break_not_mem_chars hshort)]
      exact b.valueOfLines_short hshort
  obtain ⟨q, hscan⟩ := scanBlockString_escapeQuotes _ hreturn hlast [] [] rest p
  rw [List.reverse_nil, List.nil_append, hvalue] at hscan
  rw [hescaped, ← escapeQuotes_indentBy]
  exact ⟨q, hscan⟩

/-- A printed block string writes its token. -/
theorem writes : Writes (BlockString.render b.text) [.blockString b.text] := by
  intro n rest more _ hscan
  obtain ⟨before, after, htext, hframe⟩ := b.exists_frame
  have hquotes : indentBy n ['"', '"', '"'] = ['"', '"', '"'] := indentBy_eq_self (by decide)
  rw [htext, indentBy_append, indentBy_append, hquotes]
  generalize hbody : indentBy n (before ++ escapeQuotes b.chars ++ after) = body
  have htoken : Scans ('"' :: ('"' :: '"' :: body ++ ['"', '"', '"'] ++ rest))
      (.blockString b.text :: more) := by
    refine hscan.token rfl fun p => ?_
    obtain ⟨q, hq⟩ := b.scanBlockString_frame hframe n rest (p.right 3)
    rw [hbody] at hq
    exact ⟨q, by simpa [scanToken] using hq⟩
  simpa using htoken

end BlockValue

end SchemaView.Sdl
