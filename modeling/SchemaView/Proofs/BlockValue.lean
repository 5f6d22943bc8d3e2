import SchemaView.Sdl.BlockString

/-!
# The values of block strings

The value of a block string is found by taking away what all of its lines but the first are indented
by, and the blank lines at both ends. `BlockValue` is what is left then: lines of which neither the
first nor the last is blank and which share no indentation.

## Key results

- `trimBlankLines_spec`, `trimBlankLines_append`: what falls away at both ends
- `exists_commonIndent`: some line has no more than the indentation that all share
- `exists_blockValue`: what raw lines write is a block value
-/

namespace SchemaView.Sdl

open BlockString

/-! ## Blank lines at both ends -/

variable {line : List Char} {lines : List (List Char)}

/-- What is left of some lines without the blank lines at both ends. -/
theorem trimBlankLines_spec (lines : List (List Char)) : ∃ front back,
    lines = front ++ trimBlankLines lines ++ back ∧
      (∀ l ∈ front, isBlankLine l = true) ∧ (∀ l ∈ back, isBlankLine l = true) ∧
      (∀ l, (trimBlankLines lines).head? = some l → isBlankLine l = false) ∧
      (∀ l, (trimBlankLines lines).getLast? = some l → isBlankLine l = false) := by
  let rest := lines.dropWhile isBlankLine
  refine ⟨lines.takeWhile isBlankLine, (rest.reverse.takeWhile isBlankLine).reverse, ?_, ?_, ?_,
    ?_, ?_⟩
  · have hrest : trimBlankLines lines ++ (rest.reverse.takeWhile isBlankLine).reverse = rest := by
      rw [trimBlankLines, ← List.reverse_append, List.takeWhile_append_dropWhile,
        List.reverse_reverse]
    rw [List.append_assoc, hrest, List.takeWhile_append_dropWhile]
  · exact fun l hl => List.all_eq_true.1 List.all_takeWhile l hl
  · exact fun l hl => List.all_eq_true.1 List.all_takeWhile l (List.mem_reverse.1 hl)
  · intro l hl
    have hrest : trimBlankLines lines ++ (rest.reverse.takeWhile isBlankLine).reverse = rest := by
      rw [trimBlankLines, ← List.reverse_append, List.takeWhile_append_dropWhile,
        List.reverse_reverse]
    have hhead : rest.head? = some l := by
      rw [← hrest]
      cases htrim : trimBlankLines lines with
      | nil => simp [htrim] at hl
      | cons x xs => simpa [htrim] using hl
    have hnot := List.head?_dropWhile_not isBlankLine lines
    rw [show lines.dropWhile isBlankLine = rest from rfl, hhead] at hnot
    simpa using hnot
  · intro l hl
    rw [trimBlankLines, List.getLast?_reverse] at hl
    have hnot := List.head?_dropWhile_not isBlankLine rest.reverse
    rw [hl] at hnot
    simpa using hnot

/-- Blank lines around lines that start and end with others fall away. -/
theorem trimBlankLines_append {front back : List (List Char)}
    (hfront : ∀ l ∈ front, isBlankLine l = true) (hback : ∀ l ∈ back, isBlankLine l = true)
    (hhead : ∀ l, lines.head? = some l → isBlankLine l = false)
    (hlast : ∀ l, lines.getLast? = some l → isBlankLine l = false) :
    trimBlankLines (front ++ lines ++ back) = lines := by
  cases hlines : lines with
  | nil =>
    have hall : ∀ l ∈ front ++ [] ++ back, isBlankLine l = true := by
      simpa [or_imp, forall_and] using ⟨hfront, hback⟩
    have hnone : ((front ++ [] ++ back) ++ []).dropWhile isBlankLine = [] :=
      List.dropWhile_append_of_pos hall
    rw [List.append_nil] at hnone
    rw [trimBlankLines, hnone]
    rfl
  | cons x xs =>
    rw [← hlines]
    have hx : isBlankLine x = false := hhead x (by rw [hlines]; rfl)
    have hdrop : (front ++ lines ++ back).dropWhile isBlankLine = lines ++ back := by
      rw [List.append_assoc, List.dropWhile_append_of_pos hfront, hlines, List.cons_append,
        List.dropWhile_cons_of_neg (by simp [hx])]
    have hreverse : (lines ++ back).reverse.dropWhile isBlankLine = lines.reverse := by
      rw [List.reverse_append, List.dropWhile_append_of_pos (by simpa using hback)]
      cases hrev : lines.reverse with
      | nil => rfl
      | cons y ys =>
        have hy : isBlankLine y = false := by
          apply hlast
          rw [← List.head?_reverse, hrev]
          rfl
        rw [List.dropWhile_cons_of_neg (by simp [hy])]
    rw [trimBlankLines, hdrop, hreverse, List.reverse_reverse]

/-! ## Values of block strings -/

/-- The lines of a value that a block string can have. -/
structure BlockValue where
  lines : List (List Char)
  unbroken : ∀ l ∈ lines, ∀ c ∈ l, Text.isLineBreak c = false
  /-- The first line is not blank. -/
  head_spec : ∀ l, lines.head? = some l → isBlankLine l = false
  /-- The last line is not blank. -/
  last_spec : ∀ l, lines.getLast? = some l → isBlankLine l = false
  /-- Several lines share no indentation. -/
  outdented : 1 < lines.length → ∃ l ∈ lines, isBlankLine l = false ∧ indentOf l = 0

/-- The text of a value. -/
def BlockValue.text (b : BlockValue) : String := String.ofList (['\n'].intercalate b.lines)

/-- Without a part of its indentation a line is blank exactly if it was, and the rest of its
    indentation is left. -/
theorem of_drop {n : Nat} (h : n ≤ indentOf line) :
    isBlankLine (line.drop n) = isBlankLine line ∧ indentOf (line.drop n) = indentOf line - n := by
  induction n generalizing line with
  | zero => simp
  | succ n ih =>
    cases line with
    | nil => simp [indentOf] at h
    | cons c line =>
      cases hc : isIndent c with
      | false => simp [indentOf, hc] at h
      | true =>
        have hindent : indentOf (c :: line) = indentOf line + 1 := by
          simp [indentOf, hc]
        have hn : n ≤ indentOf line := by omega
        obtain ⟨hblank, hrest⟩ := ih hn
        rw [List.drop_succ_cons, hblank, hrest, hindent]
        exact ⟨by simp [isBlankLine, hc], by omega⟩

/-- Some line that is not blank is indented by what all lines share. -/
theorem exists_commonIndent (h : ∃ l ∈ lines, isBlankLine l = false) :
    (∃ l ∈ lines, isBlankLine l = false ∧ indentOf l = commonIndent lines) ∧
      ∀ l ∈ lines, isBlankLine l = false → commonIndent lines ≤ indentOf l := by
  have hmem : ∀ n, n ∈ (lines.filter fun l => !isBlankLine l).map indentOf ↔
      ∃ l ∈ lines, isBlankLine l = false ∧ indentOf l = n := by
    intro n
    simp [and_assoc]
  obtain ⟨l, hl, hblank⟩ := h
  cases hmin : ((lines.filter fun l => !isBlankLine l).map indentOf).min? with
  | none =>
    rw [List.min?_eq_none_iff] at hmin
    have hin := (hmem _).2 ⟨l, hl, hblank, rfl⟩
    rw [hmin] at hin
    cases hin
  | some n =>
    have hcommon : commonIndent lines = n := by rw [commonIndent, hmin]; rfl
    rw [List.min?_eq_some_iff] at hmin
    rw [hcommon]
    exact ⟨(hmem n).1 hmin.1, fun l hl hblank => hmin.2 _ ((hmem _).2 ⟨l, hl, hblank, rfl⟩)⟩

/-- What raw lines write is a block value. -/
theorem exists_blockValue (raw : List (List Char))
    (hraw : ∀ l ∈ raw, ∀ c ∈ l, Text.isLineBreak c = false) :
    ∃ b : BlockValue, valueOfLines raw = ['\n'].intercalate b.lines := by
  cases raw with
  | nil => exact ⟨⟨[], by simp, by simp, by simp, by simp⟩, rfl⟩
  | cons first others =>
    let dedented := others.map fun l => l.drop (commonIndent others)
    obtain ⟨front, back, heq, hfront, hback, hhead, hlast⟩ :=
      trimBlankLines_spec (first :: dedented)
    -- Lines that are not blank do not fall away.
    have hkept : ∀ l ∈ first :: dedented, isBlankLine l = false →
        l ∈ trimBlankLines (first :: dedented) := by
      intro l hl hblank
      rw [heq, List.mem_append, List.mem_append] at hl
      rcases hl with (hl | hl) | hl
      · rw [hfront l hl] at hblank
        cases hblank
      · exact hl
      · rw [hback l hl] at hblank
        cases hblank
    refine ⟨⟨trimBlankLines (first :: dedented), ?_, hhead, hlast, ?_⟩, rfl⟩
    · intro l hl c hc
      have hmem : l ∈ first :: dedented := by
        rw [heq]
        exact List.mem_append_left _ (List.mem_append_right _ hl)
      rcases List.mem_cons.1 hmem with rfl | hmem
      · exact hraw _ List.mem_cons_self c hc
      · obtain ⟨l', hl', rfl⟩ := List.mem_map.1 hmem
        exact hraw l' (List.mem_cons_of_mem _ hl') c (List.mem_of_mem_drop hc)
    · intro hlength
      -- The last line is behind the first raw line, so some of the others is not blank.
      have hothers : ∃ l ∈ others, isBlankLine l = false := by
        match hlines : trimBlankLines (first :: dedented), hlength with
        | x :: y :: rest, _ =>
          rw [hlines] at heq hlast
          obtain ⟨l, hl⟩ : ∃ l, (y :: rest).getLast? = some l :=
            ⟨_, List.getLast?_eq_some_getLast (List.cons_ne_nil y rest)⟩
          have hblank := hlast l (by rw [List.getLast?_cons_cons, hl])
          have hmem : l ∈ dedented := by
            have hl' := List.mem_append_left back (List.mem_of_getLast? hl)
            cases front with
            | nil => exact (List.cons.inj heq).2 ▸ hl'
            | cons f front =>
              have hdedented : dedented = front ++ x :: y :: rest ++ back := (List.cons.inj heq).2
              simp_all
          obtain ⟨l', hl', rfl⟩ := List.mem_map.1 hmem
          refine ⟨l', hl', ?_⟩
          rw [isBlankLine, List.all_eq_false] at hblank ⊢
          obtain ⟨c, hc, hindent⟩ := hblank
          exact ⟨c, List.mem_of_mem_drop hc, hindent⟩
      obtain ⟨⟨l, hl, hblank, hindent⟩, -⟩ := exists_commonIndent hothers
      have hle : commonIndent others ≤ indentOf l := by omega
      obtain ⟨hblank', hindent'⟩ := of_drop hle
      refine ⟨l.drop (commonIndent others), hkept _ ?_ ?_, ?_, ?_⟩
      · exact List.mem_cons_of_mem _ (List.mem_map_of_mem hl)
      · rw [hblank', hblank]
      · rw [hblank', hblank]
      · rw [hindent', hindent, Nat.sub_self]

end SchemaView.Sdl
