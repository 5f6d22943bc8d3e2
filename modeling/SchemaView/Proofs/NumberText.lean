import SchemaView.Proofs.Answers
import SchemaView.Proofs.Layout

/-!
# Numbers are read as they are written

A number token keeps the text that writes it. `Numeral` is such a text cut into its sign, its whole
part, its fraction and its exponent. Scanning a number gives a numeral, and a numeral that stands in
a text is scanned again.

## Key results

- `scanNumber_numeral`: a scanned number is a numeral
- `Numeral.scanNumber`: a numeral is scanned
- `Numeral.writes`: a numeral writes its token
-/

namespace SchemaView.Sdl

/-! ## The parts of a number -/

/-- One digit or more. -/
def IsDigits (chars : List Char) : Prop := chars ≠ [] ∧ ∀ c ∈ chars, c.isDigit = true

/-- A number as it is written. -/
structure Numeral where
  sign : List Char
  whole : List Char
  fraction : List Char
  exponent : List Char
  sign_spec : sign = [] ∨ sign = ['-']
  /-- A zero is the only digit of its number. -/
  whole_spec : whole = ['0'] ∨ (IsDigits whole ∧ whole.head? ≠ some '0')
  fraction_spec : fraction = [] ∨ ∃ digits, IsDigits digits ∧ fraction = '.' :: digits
  exponent_spec : exponent = [] ∨ ∃ e plus digits, (e = 'e' ∨ e = 'E') ∧
    (plus = [] ∨ plus = ['+'] ∨ plus = ['-']) ∧ IsDigits digits ∧ exponent = e :: (plus ++ digits)

/-- The text of a number. -/
def Numeral.text (m : Numeral) : String :=
  String.ofList (m.sign ++ m.whole ++ m.fraction ++ m.exponent)

/-- The token of a number. -/
def Numeral.token (m : Numeral) : Token :=
  if m.fraction.isEmpty && m.exponent.isEmpty then .int m.text else .float m.text

/-! ## Scanned numbers are numerals -/

variable {c c' : Cursor} {chars : List Char} {token : Token}

theorem scanDigits_isDigits (h : scanDigits c = .ok (chars, c')) : IsDigits chars := by
  simp only [scanDigits] at h
  split at h
  · cases h
  · rename_i hne
    cases h
    exact ⟨by simpa using hne, fun x hx => List.all_eq_true.1 List.all_takeWhile x hx⟩

theorem scanWhole_spec (h : scanWhole c = .ok (chars, c')) :
    chars = ['0'] ∨ (IsDigits chars ∧ chars.head? ≠ some '0') := by
  rw [scanWhole] at h
  split at h
  · split at h
    · split at h
      · cases h
      · cases h
        exact Or.inl rfl
    · cases h
      exact Or.inl rfl
  · rename_i hzero
    refine Or.inr ⟨scanDigits_isDigits h, fun hhead => ?_⟩
    -- The first digit is the first unread character, which is no zero.
    simp only [scanDigits] at h
    split at h
    · cases h
    · cases h
      cases hrest : c.rest with
      | nil => simp [hrest] at hhead
      | cons x rest =>
        rw [hrest, List.takeWhile_cons] at hhead
        split at hhead
        · rw [List.head?_cons, Option.some.injEq] at hhead
          exact hzero rest (hhead ▸ hrest)
        · cases hhead

theorem scanFraction_spec (h : scanFraction c = .ok (chars, c')) :
    chars = [] ∨ ∃ digits, IsDigits digits ∧ chars = '.' :: digits := by
  rw [scanFraction] at h
  split at h
  · obtain ⟨⟨digits, behind⟩, hdigits, h⟩ := bind_eq_ok_iff.1 h
    cases h
    exact Or.inr ⟨digits, scanDigits_isDigits hdigits, rfl⟩
  · cases h
    exact Or.inl rfl

theorem scanExponent_spec (h : scanExponent c = .ok (chars, c')) :
    chars = [] ∨ ∃ e plus digits, (e = 'e' ∨ e = 'E') ∧
      (plus = [] ∨ plus = ['+'] ∨ plus = ['-']) ∧ IsDigits digits ∧
      chars = e :: (plus ++ digits) := by
  rw [scanExponent] at h
  split at h
  · rename_i e rest hrest
    split at h
    · rename_i he
      split at h
      · rename_i sign hsign
        split at h
        · rename_i hplus
          obtain ⟨⟨digits, behind⟩, hdigits, h⟩ := bind_eq_ok_iff.1 h
          cases h
          have hsigns : [sign] = [] ∨ [sign] = ['+'] ∨ [sign] = ['-'] := by simpa using hplus
          exact Or.inr ⟨e, [sign], digits, he, hsigns, scanDigits_isDigits hdigits, rfl⟩
        · obtain ⟨⟨digits, behind⟩, hdigits, h⟩ := bind_eq_ok_iff.1 h
          cases h
          exact Or.inr ⟨e, [], digits, he, Or.inl rfl, scanDigits_isDigits hdigits, rfl⟩
      · obtain ⟨⟨digits, behind⟩, hdigits, h⟩ := bind_eq_ok_iff.1 h
        cases h
        exact Or.inr ⟨e, [], digits, he, Or.inl rfl, scanDigits_isDigits hdigits, rfl⟩
    · cases h
      exact Or.inl rfl
  · cases h
    exact Or.inl rfl

/-- A number token that was scanned is that of a numeral. -/
theorem scanNumber_numeral (h : scanNumber c = .ok (token, c')) :
    ∃ m : Numeral, token = m.token := by
  simp only [scanNumber, bind_eq_ok_iff] at h
  obtain ⟨⟨whole, c₁⟩, hwhole, ⟨fraction, c₂⟩, hfraction, ⟨exponent, c₃⟩, hexponent, h⟩ := h
  let m : Numeral := {
    sign := if c.rest.head? = some '-' then ['-'] else []
    whole := whole
    fraction := fraction
    exponent := exponent
    sign_spec := by split <;> simp
    whole_spec := scanWhole_spec hwhole
    fraction_spec := scanFraction_spec hfraction
    exponent_spec := scanExponent_spec hexponent }
  refine ⟨m, ?_⟩
  split at h
  · split at h
    · cases h
    · cases h
      rfl
  · cases h
    rfl

/-! ## Numerals are scanned -/

variable {rest : List Char} {p : Position}

/-- A digit would run into a number. -/
theorem isDigit_of_apart (hrest : Apart rest) (x : Char) (hx : rest.head? = some x) :
    x.isDigit = false := by
  have hcontinue := (hrest x hx).1
  simp only [isNameContinue, Char.isAlphanum, Bool.or_eq_false_iff] at hcontinue
  exact hcontinue.1.2

theorem scanDigits_append (h : IsDigits chars)
    (hrest : ∀ x, rest.head? = some x → x.isDigit = false) :
    ∃ q, scanDigits ⟨chars ++ rest, p⟩ = .ok (chars, ⟨rest, q⟩) := by
  have hdigits : (chars ++ rest).takeWhile Char.isDigit = chars :=
    takeWhile_append_of_stop h.2 hrest
  exact ⟨p.right chars.length, by simp [scanDigits, hdigits, h.1, Cursor.skip]⟩

theorem scanWhole_append (h : chars = ['0'] ∨ (IsDigits chars ∧ chars.head? ≠ some '0'))
    (hrest : ∀ x, rest.head? = some x → x.isDigit = false) :
    ∃ q, scanWhole ⟨chars ++ rest, p⟩ = .ok (chars, ⟨rest, q⟩) := by
  rcases h with rfl | ⟨hdigits, hzero⟩
  · refine ⟨p.right 1, ?_⟩
    cases rest with
    | nil => rfl
    | cons x rest => simp [scanWhole, hrest x rfl, Cursor.skip]
  · obtain ⟨x, digits, rfl⟩ := List.exists_cons_of_ne_nil hdigits.1
    have hscan := scanDigits_append (p := p) hdigits hrest
    rw [scanWhole]
    split
    · simp_all
    · exact hscan

theorem scanFraction_append (h : chars = [] ∨ ∃ digits, IsDigits digits ∧ chars = '.' :: digits)
    (hrest : ∀ x, rest.head? = some x → x.isDigit = false ∧ x ≠ '.') :
    ∃ q, scanFraction ⟨chars ++ rest, p⟩ = .ok (chars, ⟨rest, q⟩) := by
  rcases h with rfl | ⟨digits, hdigits, rfl⟩
  · refine ⟨p, ?_⟩
    rw [scanFraction]
    split
    · rename_i heq
      exact absurd rfl (hrest '.' (by simp_all)).2
    · rfl
  · obtain ⟨q, hscan⟩ := scanDigits_append (p := p.right 1) hdigits fun x hx => (hrest x hx).1
    exact ⟨q, by simp [scanFraction, Cursor.skip, hscan, bind, Except.bind]⟩

theorem scanExponent_append (h : chars = [] ∨ ∃ e plus digits, (e = 'e' ∨ e = 'E') ∧
      (plus = [] ∨ plus = ['+'] ∨ plus = ['-']) ∧ IsDigits digits ∧ chars = e :: (plus ++ digits))
    (hrest : Apart rest) : ∃ q, scanExponent ⟨chars ++ rest, p⟩ = .ok (chars, ⟨rest, q⟩) := by
  rcases h with rfl | ⟨e, plus, digits, he, hplus, hdigits, rfl⟩
  · refine ⟨p, ?_⟩
    cases rest with
    | nil => rfl
    | cons x rest =>
      have hletter : ¬ (x = 'e' ∨ x = 'E') := by
        have hcontinue := (hrest x rfl).1
        rintro (rfl | rfl) <;> revert hcontinue <;> decide
      simp [scanExponent, hletter]
  · rcases hplus with rfl | hplus
    · -- Without a sign the first digit comes next, which is none.
      obtain ⟨q, hscan⟩ := scanDigits_append (p := p.right 1) hdigits (isDigit_of_apart hrest)
      obtain ⟨x, front, rfl⟩ := List.exists_cons_of_ne_nil hdigits.1
      have hx : ¬ (x = '+' ∨ x = '-') := by
        have hdigit := hdigits.2 x List.mem_cons_self
        rintro (rfl | rfl) <;> revert hdigit <;> decide
      rw [List.cons_append] at hscan
      exact ⟨q, by simp [scanExponent, he, hx, hscan, Cursor.skip, bind, Except.bind]⟩
    · obtain ⟨q, hscan⟩ := scanDigits_append (p := p.right 2) hdigits (isDigit_of_apart hrest)
      refine ⟨q, ?_⟩
      rcases hplus with rfl | rfl <;>
        simp [scanExponent, he, hscan, Cursor.skip, bind, Except.bind]

/-- A number starts with a minus or with a digit. -/
theorem Numeral.exists_cons (m : Numeral) (behind : List Char) :
    ∃ c front, m.sign ++ (m.whole ++ behind) = c :: front ∧ (c = '-' ∨ c.isDigit = true) ∧
      (if c = '-' then ['-'] else []) = m.sign := by
  rcases m.sign_spec with hnone | hminus
  · rw [hnone]
    rcases m.whole_spec with hzero | ⟨hdigits, -⟩
    · exact ⟨'0', behind, by rw [hzero]; rfl, Or.inr rfl, rfl⟩
    · obtain ⟨x, front, heq⟩ := List.exists_cons_of_ne_nil hdigits.1
      have hx := hdigits.2 x (heq ▸ List.mem_cons_self)
      have hminus : x ≠ '-' := by
        rintro rfl
        revert hx
        decide
      exact ⟨x, front ++ behind, by rw [heq]; rfl, Or.inr hx, by rw [if_neg hminus]⟩
  · rw [hminus]
    exact ⟨'-', m.whole ++ behind, rfl, Or.inl rfl, rfl⟩

/-- A numeral is scanned wherever nothing runs into it. -/
theorem Numeral.scanNumber (m : Numeral) (hrest : Apart rest) (p : Position) : ∃ q,
    scanNumber ⟨m.sign ++ (m.whole ++ (m.fraction ++ (m.exponent ++ rest))), p⟩
      = .ok (m.token, ⟨rest, q⟩) := by
  -- What may follow each part: the next part that is there, or the rest.
  have hexponent : ∀ x, (m.exponent ++ rest).head? = some x → x.isDigit = false ∧ x ≠ '.' := by
    rcases m.exponent_spec with hnone | ⟨e, plus, digits, he, -, -, heq⟩
    · rw [hnone]
      exact fun x hx => ⟨isDigit_of_apart hrest x hx, (hrest x hx).2.1⟩
    · rw [heq]
      rintro x hx
      cases hx
      rcases he with rfl | rfl <;> decide
  have hfraction : ∀ x, (m.fraction ++ (m.exponent ++ rest)).head? = some x →
      x.isDigit = false := by
    rcases m.fraction_spec with hnone | ⟨digits, -, heq⟩
    · rw [hnone]
      exact fun x hx => (hexponent x hx).1
    · rw [heq]
      rintro x hx
      cases hx
      decide
  have hsign : (if (m.sign ++ (m.whole ++ (m.fraction ++ (m.exponent ++ rest)))).head? = some '-'
      then ['-'] else []) = m.sign := by
    obtain ⟨c, front, heq, -, hc⟩ := m.exists_cons (m.fraction ++ (m.exponent ++ rest))
    simpa [heq] using hc
  have hend : ∀ d, rest.head? = some d → (d = '.' || isNameStart d) = false := by
    intro d hd
    obtain ⟨hcontinue, hdot, -⟩ := hrest d hd
    rw [Bool.or_eq_false_iff]
    refine ⟨by simpa using hdot, ?_⟩
    rw [Bool.eq_false_iff]
    intro hstart
    rw [isNameContinue_of_isNameStart hstart] at hcontinue
    cases hcontinue
  obtain ⟨p₁, hwhole⟩ := scanWhole_append (p := p.right m.sign.length) m.whole_spec hfraction
  obtain ⟨p₂, hpoint⟩ := scanFraction_append (p := p₁) m.fraction_spec hexponent
  obtain ⟨p₃, hpower⟩ := scanExponent_append (p := p₂) m.exponent_spec hrest
  refine ⟨p₃, ?_⟩
  simp only [Sdl.scanNumber, hsign, Cursor.skip, List.drop_left, hwhole, hpoint, hpower, bind,
    Except.bind]
  cases hhead : rest.head? with
  | none => simp [Numeral.token, Numeral.text, pure, Except.pure]
  | some d => simp [hend d hhead, Numeral.token, Numeral.text, pure, Except.pure]

/-- A numeral has no line break. -/
theorem Numeral.break_not_mem (m : Numeral) : '\n' ∉ m.text.toList := by
  have hdigits : ∀ {digits : List Char}, IsDigits digits → '\n' ∉ digits := fun h hmem =>
    absurd (h.2 _ hmem) (by decide)
  have hsign : '\n' ∉ m.sign := by
    rcases m.sign_spec with h | h <;> simp [h]
  have hwhole : '\n' ∉ m.whole := by
    rcases m.whole_spec with h | h
    · simp [h]
    · exact hdigits h.1
  have hfraction : '\n' ∉ m.fraction := by
    rcases m.fraction_spec with h | ⟨digits, h, heq⟩
    · simp [h]
    · simp [heq, hdigits h]
  have hexponent : '\n' ∉ m.exponent := by
    rcases m.exponent_spec with h | ⟨e, plus, digits, he, hplus, h, heq⟩
    · simp [h]
    · rcases he with rfl | rfl <;> rcases hplus with rfl | rfl | rfl <;> simp [heq, hdigits h]
  simp [Numeral.text, hsign, hwhole, hfraction, hexponent]

/-- What a number starts with starts nothing else. -/
theorem of_number_start {c : Char} (h : c = '-' ∨ c.isDigit = true) :
    isIgnored c = false ∧ c ≠ '.' ∧ c ≠ '"' ∧ Punctuator.ofChar? c = none ∧
      isNameStart c = false := by
  rcases h with rfl | h
  · decide
  · have hcontinue : isNameContinue c = true := by simp [isNameContinue, Char.isAlphanum, h]
    obtain ⟨hignored, hdot, hquote, hmark⟩ := of_isNameContinue hcontinue
    refine ⟨hignored, hdot, hquote, hmark, ?_⟩
    have hunderscore : c ≠ '_' := by
      rintro rfl
      revert h
      decide
    have hle : c.val ≤ '9'.val := of_decide_eq_true (Bool.and_eq_true_iff.1 h).2
    show (decide (c.val ≥ 'A'.val ∧ c.val ≤ 'Z'.val) ||
      (decide (c.val ≥ 'a'.val) && decide (c.val ≤ 'z'.val)) || c == '_') = false
    have hupper : ¬ c.val ≥ 'A'.val := fun hge => absurd (UInt32.le_trans hge hle) (by decide)
    have hlower : ¬ c.val ≥ 'a'.val := fun hge => absurd (UInt32.le_trans hge hle) (by decide)
    rw [decide_eq_false fun hboth => hupper hboth.1, decide_eq_false hlower]
    simpa using hunderscore

/-- A numeral writes its token. -/
theorem Numeral.writes (m : Numeral) : Writes m.text [m.token] := by
  obtain ⟨c, front, heq, hc, -⟩ := m.exists_cons (m.fraction ++ m.exponent)
  have htext : m.text.toList = c :: front := by
    rw [Numeral.text, String.toList_ofList, ← heq]
    simp
  obtain ⟨hignored, hdot, hquote, hmark, hstart⟩ := of_number_start hc
  have hbreak : '\n' ∉ front := fun hmem =>
    m.break_not_mem (by rw [htext]; exact List.mem_cons_of_mem _ hmem)
  refine writes_token hignored hbreak htext fun rest p hrest => ?_
  obtain ⟨q, hscan⟩ := m.scanNumber hrest p
  have hchars : m.sign ++ (m.whole ++ (m.fraction ++ (m.exponent ++ rest))) =
      c :: (front ++ rest) := by
    rw [← List.cons_append, ← heq]
    simp
  rw [hchars] at hscan
  refine ⟨q, ?_⟩
  simp only [scanToken]
  split
  · contradiction
  · simp_all
  · simp_all
  · simp_all
  · rename_i heq
    cases heq
    have hnumber : (c.isDigit || c = '-') = true := by
      rcases hc with rfl | hc
      · rfl
      · simp [hc]
    simpa [hmark, hstart, hnumber] using hscan

end SchemaView.Sdl
