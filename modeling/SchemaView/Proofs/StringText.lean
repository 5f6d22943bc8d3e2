import SchemaView.Proofs.Layout

/-!
# Strings are read as they are written

A string is printed on one line, with an escape for every character that cannot stand in it.
Scanning goes through the printed text one character of the value at a time.

## Key results

- `scanString_stringChar`: a character of the value, plain or as an escape
- `scanString_chars`: a whole value up to the closing quote
- `writes_renderString`: a printed string writes its token
-/

namespace SchemaView.Sdl

/-! ## Escapes -/

/-- A character has its own code point. -/
theorem charOfCode?_toNat (c : Char) : Text.charOfCode? c.toNat = some c := by
  have hvalid : c.toNat.isValidChar := c.valid
  exact dif_pos hvalid

/-- The digits in which control characters are written. -/
theorem hexDigitsUpper_spec : ∀ n < 160,
    Text.hexNumber? (Text.hexDigitsUpper 4 n) = some n ∧ (Text.hexDigitsUpper 4 n).length = 4 ∧
      '\x7b' ∉ Text.hexDigitsUpper 4 n ∧ '\n' ∉ Text.hexDigitsUpper 4 n := by
  decide +kernel

/-- A control character is read from its digits. -/
theorem scanEscape_hexDigits {c : Char} (hc : c.toNat < 160) (rest : List Char) :
    scanEscape ('\\' :: 'u' :: (Text.hexDigitsUpper 4 c.toNat ++ rest)) = .ok (c, 6) := by
  obtain ⟨hnumber, hlength, hbrace, -⟩ := hexDigitsUpper_spec c.toNat hc
  match hdigits : Text.hexDigitsUpper 4 c.toNat, hlength with
  | [w, x, y, z], _ =>
    rw [hdigits] at hnumber hbrace
    have hw : w ≠ '\x7b' := fun h => hbrace (h ▸ List.mem_cons_self)
    simp [scanEscape, fixedEscape, codeUnit?, hw, hnumber, charOfCode?_toNat]

/-- What is printed for a character starts with no quote and has no line break. -/
theorem stringChar_spec (c : Char) :
    '\n' ∉ stringChar c ∧ ∃ x front, stringChar c = x :: front ∧ x ≠ '"' := by
  rw [stringChar]
  split
  · rename_i h
    rcases h with rfl | rfl <;> exact ⟨by decide, _, _, rfl, by decide⟩
  · rename_i hplain
    rw [not_or] at hplain
    split
    · exact ⟨by decide, _, _, rfl, by decide⟩
    split
    · exact ⟨by decide, _, _, rfl, by decide⟩
    split
    · exact ⟨by decide, _, _, rfl, by decide⟩
    split
    · exact ⟨by decide, _, _, rfl, by decide⟩
    split
    · exact ⟨by decide, _, _, rfl, by decide⟩
    split
    · rename_i hcontrol
      have hdigits := (hexDigitsUpper_spec c.toNat (by omega)).2.2.2
      exact ⟨by simp [hdigits], _, _, rfl, by decide⟩
    · rename_i hfeed _ _ _
      exact ⟨by simpa using Ne.symm hfeed, _, _, rfl, hplain.1⟩

/-- The printed form of a character is read as the character. -/
theorem scanString_stringChar (c : Char) (n : Nat) (value rest : List Char) (p : Position) :
    ∃ q, scanString (n + 1) value ⟨stringChar c ++ rest, p⟩
      = scanString n (c :: value) ⟨rest, q⟩ := by
  have hescape : ∀ text : List Char,
      scanEscape ('\\' :: (text ++ rest)) = .ok (c, text.length + 1) →
      scanString (n + 1) value ⟨'\\' :: (text ++ rest), p⟩
        = scanString n (c :: value) ⟨rest, p.right (text.length + 1)⟩ := by
    intro text h
    simp [scanString, h, Cursor.skip]
  rw [stringChar]
  split
  · rename_i h
    refine ⟨p.right 2, hescape [c] ?_⟩
    rcases h with rfl | rfl <;> rfl
  · rename_i hplain
    rw [not_or] at hplain
    -- The escapes of a single letter.
    have hletter : ∀ letter, simpleEscape? letter = some c → letter ≠ 'u' →
        ∃ q, scanString (n + 1) value ⟨['\\', letter] ++ rest, p⟩
          = scanString n (c :: value) ⟨rest, q⟩ := by
      intro letter hsimple hu
      refine ⟨p.right 2, hescape [letter] ?_⟩
      simp only [scanEscape, List.drop_succ_cons, List.drop_zero, List.cons_append, List.nil_append]
      split
      · simp_all
      · simp_all
    split
    · exact hletter 'b' (by simp_all [simpleEscape?]) (by decide)
    split
    · exact hletter 't' (by simp_all [simpleEscape?]) (by decide)
    split
    · exact hletter 'n' (by simp_all [simpleEscape?]) (by decide)
    split
    · exact hletter 'f' (by simp_all [simpleEscape?]) (by decide)
    split
    · exact hletter 'r' (by simp_all [simpleEscape?]) (by decide)
    split
    · rename_i hcontrol
      have hc : c.toNat < 160 := by omega
      refine ⟨p.right 6, ?_⟩
      have hlength := (hexDigitsUpper_spec c.toNat hc).2.1
      have hread := hescape ('u' :: Text.hexDigitsUpper 4 c.toNat) (by
        rw [List.length_cons, hlength]
        exact scanEscape_hexDigits hc rest)
      rw [List.length_cons, hlength] at hread
      exact hread
    · rename_i hfeed _ hreturn _
      have hbreak : Text.isLineBreak c = false := by simp [Text.isLineBreak, hfeed, hreturn]
      exact ⟨p.right 1, by simp [scanString, hplain.1, hplain.2, hbreak, Cursor.skip]⟩

/-! ## Whole strings -/

/-- The printed form of a value is read up to the closing quote. -/
theorem scanString_chars (chars : List Char) (n : Nat) (value rest : List Char) (p : Position)
    (hn : (chars.flatMap stringChar).length < n) :
    ∃ q, scanString n value ⟨chars.flatMap stringChar ++ '"' :: rest, p⟩
      = .ok (.string (String.ofList (value.reverse ++ chars)), ⟨rest, q⟩) := by
  obtain ⟨m, rfl⟩ : ∃ m, n = m + 1 := ⟨n - 1, by omega⟩
  induction chars generalizing m value p with
  | nil => exact ⟨p.right 1, by simp [scanString, Cursor.skip]⟩
  | cons c chars ih =>
    rw [List.flatMap_cons, List.length_append] at hn
    have hlength : 0 < (stringChar c).length := by
      obtain ⟨-, x, front, heq, -⟩ := stringChar_spec c
      rw [heq]
      exact Nat.succ_pos _
    obtain ⟨k, rfl⟩ : ∃ k, m = k + 1 := ⟨m - 1, by omega⟩
    obtain ⟨p', hstep⟩ :=
      scanString_stringChar c (k + 1) value (chars.flatMap stringChar ++ '"' :: rest) p
    obtain ⟨q, hrest⟩ := ih (c :: value) p' k (by omega)
    refine ⟨q, ?_⟩
    rw [List.flatMap_cons, List.append_assoc, hstep, hrest, List.reverse_cons, List.append_assoc,
      List.singleton_append]

/-- A printed string writes its token. -/
theorem writes_renderString (value : String) : Writes (renderString value) [.string value] := by
  have hbreak : '\n' ∉ value.toList.flatMap stringChar ++ ['"'] := by
    simp only [List.mem_append, List.mem_flatMap, not_or, not_exists, not_and]
    exact ⟨fun c _ => (stringChar_spec c).1, by decide⟩
  have htext : (renderString value).toList = '"' :: (value.toList.flatMap stringChar ++ ['"']) := by
    simp [renderString]
  refine writes_token rfl hbreak htext fun rest p hrest => ?_
  rw [List.append_assoc, List.singleton_append]
  obtain ⟨q, hscan⟩ := scanString_chars value.toList
    ((value.toList.flatMap stringChar ++ '"' :: rest).length + 1) [] rest (p.right 1)
    (by rw [List.length_append]; omega)
  -- Behind the opening quote stand no two quotes, which would open a block string.
  have hopening : ∀ behind,
      value.toList.flatMap stringChar ++ '"' :: rest ≠ '"' :: '"' :: behind := by
    intro behind heq
    cases hvalue : value.toList with
    | nil =>
      rw [hvalue, List.flatMap_nil, List.nil_append, List.cons.injEq] at heq
      exact (hrest '"' (by rw [heq.2]; rfl)).2.2 rfl
    | cons c chars =>
      obtain ⟨-, x, front, hfront, hx⟩ := stringChar_spec c
      rw [hvalue, List.flatMap_cons, hfront, List.cons_append, List.cons_append,
        List.cons.injEq] at heq
      exact hx heq.1
  refine ⟨q, ?_⟩
  simp only [scanToken]
  simpa [Cursor.skip, String.ofList_toList] using hscan

end SchemaView.Sdl
