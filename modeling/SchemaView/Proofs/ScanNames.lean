import SchemaView.Proofs.BlockText
import SchemaView.Proofs.NumberText

/-!
# Scanned tokens can be written again

A scanner makes name tokens of letters, digits and underscores only, and of at least one of them, so
whatever else a text holds, the names in its lexemes can be parts of coordinates. Its numbers are
numerals and its block strings have the values of block strings, so their texts are read as the same
tokens again.

## Key results

- `scanToken_scanned`: one token, by the function that scans it
- `ofText_scanned`: all lexemes of a text
-/

namespace SchemaView.Sdl

/-- A name is not empty, and a dot is no character of a name. -/
theorem IsNameText.isPart {text : String} (h : IsNameText text) : IsPart text := by
  constructor
  · rintro rfl
    obtain ⟨c, hc, -⟩ := h.starts
    cases hc
  · intro hdot
    have hcontinue := h.continues '.' hdot
    revert hcontinue
    decide

/-! ## Tokens -/

/-- What holds of every token that was scanned: the text of a name is a name, that of a number is a
    numeral, and the value of a block string is one that block strings can have. -/
def Token.Scanned : Token → Prop
  | .name text => IsNameText text
  | .int text => ∃ m : Numeral, m.token = .int text
  | .float text => ∃ m : Numeral, m.token = .float text
  | .blockString value => ∃ b : BlockValue, b.text = value
  | .punctuator _ | .string _ | .endOfText => True

theorem scanString_scanned {n : Nat} {value : List Char} {c c' : Cursor} {token : Token}
    (h : scanString n value c = .ok (token, c')) : token.Scanned := by
  induction n generalizing value c with
  | zero => cases h
  | succ n ih =>
    rw [scanString] at h
    split at h
    · cases h
      trivial
    · split at h
      · exact ih h
      · cases h
    · split at h
      · cases h
      · exact ih h
    · cases h

theorem scanBlockString_scanned {line : List Char} {lines : List (List Char)} {rest : List Char}
    {p : Position} {c : Cursor} {token : Token}
    (hline : ∀ x ∈ line, Text.isLineBreak x = false)
    (hlines : ∀ l ∈ lines, ∀ x ∈ l, Text.isLineBreak x = false)
    (h : scanBlockString line lines rest p = .ok (token, c)) : token.Scanned := by
  have hnext : ∀ {line : List Char} {lines : List (List Char)},
      (∀ x ∈ line, Text.isLineBreak x = false) →
      (∀ l ∈ lines, ∀ x ∈ l, Text.isLineBreak x = false) →
      ∀ l ∈ line.reverse :: lines, ∀ x ∈ l, Text.isLineBreak x = false := fun hline hlines =>
    List.forall_mem_cons.2 ⟨fun x hx => hline x (List.mem_reverse.1 hx), hlines⟩
  fun_induction scanBlockString line lines rest p with
  | case1 =>
    cases h
    obtain ⟨b, hb⟩ := exists_blockValue _ fun l hl => hnext hline hlines l (List.mem_reverse.1 hl)
    exact ⟨b, by rw [hb, BlockValue.text]⟩
  | case2 line lines _ _ ih =>
    have hquote : Text.isLineBreak '"' = false := rfl
    exact ih (by simpa [hquote] using hline) hlines h
  | case3 _ _ _ _ ih => exact ih (List.forall_mem_nil _) (hnext hline hlines) h
  | case4 _ _ _ _ _ _ _ _ _ ih => exact ih (List.forall_mem_nil _) (hnext hline hlines) h
  | case5 _ _ c _ _ _ _ _ hbreak ih =>
    exact ih (List.forall_mem_cons.2 ⟨Bool.eq_false_iff.2 hbreak, hline⟩) hlines h
  | case6 => cases h

theorem scanNumber_scanned {c c' : Cursor} {token : Token}
    (h : scanNumber c = .ok (token, c')) : token.Scanned := by
  obtain ⟨m, rfl⟩ := scanNumber_numeral h
  by_cases hint : (m.fraction.isEmpty && m.exponent.isEmpty) = true
  · have htoken : m.token = .int m.text := if_pos hint
    rw [htoken]
    exact ⟨m, htoken⟩
  · have htoken : m.token = .float m.text := if_neg hint
    rw [htoken]
    exact ⟨m, htoken⟩

theorem scanToken_scanned {c c' : Cursor} {token : Token} (h : scanToken c = .ok (token, c')) :
    token.Scanned := by
  rw [scanToken] at h
  split at h
  · cases h; trivial
  · cases h; trivial
  · exact scanBlockString_scanned (List.forall_mem_nil _) (List.forall_mem_nil _) h
  · exact scanString_scanned h
  · rename_i char rest _ _ _ hrest
    split at h
    · cases h; trivial
    · split at h
      · rename_i hstart
        cases h
        -- A name has its first character, and only characters of names.
        refine ⟨⟨char, ?_, hstart⟩, fun x hx => ?_⟩
        · rw [String.toList_ofList, hrest,
            List.takeWhile_cons_of_pos (isNameContinue_of_isNameStart hstart)]
          rfl
        · rw [String.toList_ofList] at hx
          exact List.all_eq_true.1 List.all_takeWhile x hx
      · split at h
        · exact scanNumber_scanned h
        · split at h <;> cases h

/-- What holds of every stream of lexemes that was scanned. -/
def Lexemes.Scanned (s : Lexemes) : Prop := ∀ lexeme ∈ s.items, lexeme.token.Scanned

theorem Lexemes.scan_scanned (n : Nat) (c : Cursor) :
    ∀ lexeme ∈ (Lexemes.scan n c).1, lexeme.token.Scanned := by
  induction n generalizing c with
  | zero => exact fun _ h => absurd h List.not_mem_nil
  | succ n ih =>
    intro lexeme h
    simp only [scan] at h
    split at h
    · exact absurd h List.not_mem_nil
    · split at h
      · rename_i hscan
        rcases List.mem_cons.1 h with rfl | h
        · exact scanToken_scanned hscan
        · exact ih _ lexeme h
      · exact absurd h List.not_mem_nil

theorem Lexemes.ofText_scanned (text : String) : (Lexemes.ofText text).Scanned :=
  Lexemes.scan_scanned ((Cursor.start text).rest.length + 1) (Cursor.start text)

end SchemaView.Sdl
