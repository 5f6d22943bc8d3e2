import SchemaView.Text.Blank
import SchemaView.Text.LineBreak

/-!
# Settings files

A settings file names variables. A statement with an equals sign sets one, and a name that stands
alone takes back what was set before. The word "export" may stand in front and a comment behind; a
number sign starts a comment at the front of a line, behind white space and behind a quoted value.

Names may stand in single quotes, and values in single or double quotes, in which they may run over
several lines. A statement that cannot be read sets nothing, and reading goes on in the line after
the place where it failed, so that `length_read_le` bounds it. In values that were read, `expand`
puts other variables in, which are those that `references` lists.

`ofFile` takes any text; the lines of the texts that the other functions take end in LF.
-/

namespace SchemaView

/-- A variable that a settings file names: with the value that it is set to, or without one. -/
structure Setting where
  name : String
  value? : Option String
deriving DecidableEq, Repr

namespace Setting

/-! ## Parts of a line -/

/-- White space within a line. -/
def isGap (c : Char) : Bool := Text.isBlank c && !Text.isLineBreak c

/-- The text behind the current line. -/
def afterLine (text : List Char) : List Char := (text.dropWhile (· != '\n')).tail

/-- Whether only white space and a comment are left of the current line. -/
def endsLine (text : List Char) : Bool :=
  match (text.dropWhile isGap).head? with
  | some c => c == '\n' || c == '#'
  | none => true

/-- The text in front of a comment, which starts with a number sign behind white space. -/
def beforeComment : List Char → List Char
  | [] => []
  | c :: rest =>
    if Text.isBlank c && (rest.dropWhile Text.isBlank).head? = some '#' then []
    else c :: beforeComment rest

/-- The text behind the word that may stand in front of a setting. -/
def dropExport (text : List Char) : List Char :=
  let word := "export".toList
  let behind := text.drop word.length
  if word.isPrefixOf text && behind.head?.any isGap then behind.dropWhile isGap else text

/-! ## Quotes and escapes -/

/-- Cuts a text at its closing quote. The character behind a backslash, whatever it is, does not
close. -/
def cutAtQuote? (quote : Char) : List Char → Option (List Char × List Char)
  | [] => none
  | '\\' :: c :: rest => (cutAtQuote? quote rest).map fun cut => ('\\' :: c :: cut.1, cut.2)
  | c :: rest =>
    if c = quote then some ([], rest)
    else (cutAtQuote? quote rest).map fun cut => (c :: cut.1, cut.2)

/-- The character that a backslash and another one write within single quotes. -/
def singleEscape? : Char → Option Char
  | '\\' => some '\\' | '\'' => some '\''
  | _ => none

/-- The character that a backslash and another one write within double quotes. -/
def doubleEscape? : Char → Option Char
  | '\\' => some '\\' | '\'' => some '\'' | '"' => some '"' | 'a' => some '\x07'
  | 'b' => some '\x08' | 'f' => some '\x0c' | 'n' => some '\n' | 'r' => some '\r'
  | 't' => some '\t' | 'v' => some '\x0b'
  | _ => none

/-- Replaces escapes by what they write. A backslash in front of any other character stays. -/
def unescape (escape? : Char → Option Char) : List Char → List Char
  | [] => []
  | [c] => [c]
  | c :: d :: rest =>
    match if c = '\\' then escape? d else none with
    | some written => written :: unescape escape? rest
    | none => c :: unescape escape? (d :: rest)

/-! ## Statements -/

/-- The characters of a name without quotes. -/
def isNameChar (c : Char) : Bool := c != '=' && c != '#' && !Text.isBlank c

/-- Reads a name, with the text behind it. -/
def readName? (text : List Char) : Option (List Char × List Char) :=
  match text with
  | '\'' :: rest =>
    match rest.takeWhile (· != '\''), rest.dropWhile (· != '\'') with
    | c :: name, _ :: behind => some (c :: name, behind)
    | _, _ => none
  | _ =>
    match text.takeWhile isNameChar with
    | [] => none
    | name => some (name, text.dropWhile isNameChar)

/-- Reads the value behind an equals sign, with the text behind it. -/
def readValue? (text : List Char) : Option (List Char × List Char) :=
  let start := text.dropWhile isGap
  match start.head? with
  | some '\'' => (cutAtQuote? '\'' start.tail).map fun cut => (unescape singleEscape? cut.1, cut.2)
  | some '"' => (cutAtQuote? '"' start.tail).map fun cut => (unescape doubleEscape? cut.1, cut.2)
  | _ =>
    -- The gap belongs to the line: a number sign behind it starts a comment.
    some (Text.trimWhile Text.isBlank (beforeComment (text.takeWhile (· != '\n'))),
      text.dropWhile (· != '\n'))

/-- The setting that stands if nothing else is on its line. -/
def ifLineEnds (name : List Char) (value? : Option (List Char)) (behind : List Char) :
    Option Setting :=
  if endsLine behind then some ⟨String.ofList name, value?.map String.ofList⟩ else none

/-- Reads the first statement of a text, with the text behind the part that could be read. -/
def read (text : List Char) : Option Setting × List Char :=
  let text := dropExport (text.dropWhile Text.isBlank)
  match readName? text with
  | none => (none, text)
  | some (name, behind) =>
    let behind := behind.dropWhile isGap
    if behind.head? = some '=' then
      match readValue? behind.tail with
      | none => (none, behind)
      | some (value, behind) => (ifLineEnds name (some value) behind, behind)
    else (ifLineEnds name none behind, behind)

/-! ### Reading goes forward -/

private theorem length_dropWhile_le (p : Char → Bool) (text : List Char) :
    (text.dropWhile p).length ≤ text.length :=
  (List.dropWhile_sublist p).length_le

private theorem length_dropExport_le (text : List Char) :
    (dropExport text).length ≤ text.length := by
  dsimp only [dropExport]
  split
  · exact Nat.le_trans (length_dropWhile_le _ _) (by simp)
  · exact Nat.le_refl _

private theorem length_cutAtQuote?_le {quote : Char} {text : List Char}
    {cut : List Char × List Char} (h : cutAtQuote? quote text = some cut) :
    cut.2.length ≤ text.length := by
  fun_induction cutAtQuote? quote text generalizing cut with
  | case1 => cases h
  | case2 c rest ih =>
    obtain ⟨inner, hi, rfl⟩ := Option.map_eq_some_iff.1 h
    have := ih hi
    simp at this ⊢; omega
  | case3 => cases h; simp
  | case4 c rest _ _ ih =>
    obtain ⟨inner, hi, rfl⟩ := Option.map_eq_some_iff.1 h
    have := ih hi
    simp at this ⊢; omega

private theorem length_readName?_le {text : List Char} {reading : List Char × List Char}
    (h : readName? text = some reading) : reading.2.length ≤ text.length := by
  unfold readName? at h
  split at h
  · next rest =>
    have hle := length_dropWhile_le (· != '\'') rest
    split at h
    · next hd => cases h; simp [hd] at hle ⊢; omega
    · cases h
  · split at h
    · cases h
    · cases h; exact length_dropWhile_le _ _

private theorem length_readValue?_le {text : List Char} {reading : List Char × List Char}
    (h : readValue? text = some reading) : reading.2.length ≤ text.length := by
  have hgap := length_dropWhile_le isGap text
  dsimp only [readValue?] at h
  split at h
  · obtain ⟨cut, hc, rfl⟩ := Option.map_eq_some_iff.1 h
    have := length_cutAtQuote?_le hc
    simp at this ⊢; omega
  · obtain ⟨cut, hc, rfl⟩ := Option.map_eq_some_iff.1 h
    have := length_cutAtQuote?_le hc
    simp at this ⊢; omega
  · cases h
    exact length_dropWhile_le _ _

/-- Reading a statement leaves no more text than there was. -/
theorem length_read_le (text : List Char) : (read text).2.length ≤ text.length := by
  have hstart := Nat.le_trans (length_dropExport_le _) (length_dropWhile_le Text.isBlank text)
  dsimp only [read]
  split
  · exact hstart
  · next name behind hn =>
    have hname := length_readName?_le hn
    have hgap := length_dropWhile_le isGap behind
    dsimp only at hname
    split
    · split
      · dsimp only; omega
      · next value rest hv =>
        have hvalue := length_readValue?_le hv
        simp only [List.length_tail] at hvalue ⊢; omega
    · dsimp only; omega

private theorem length_afterLine_lt {text : List Char} {n : Nat} (h : text.length ≤ n + 1) :
    (afterLine text).length < n + 1 := by
  have := length_dropWhile_le (· != '\n') text
  simp only [afterLine, List.length_tail]; omega

/-- The settings of the statements of a text, in their order. -/
def ofText : List Char → List Setting
  | [] => []
  | c :: rest => (read (c :: rest)).1.toList ++ ofText (afterLine (read (c :: rest)).2)
termination_by text => text.length
decreasing_by exact length_afterLine_lt (length_read_le _)

/-- The settings in a file, which may start with a byte order mark. -/
def ofFile (text : String) : List Setting :=
  let text := Text.normalizeBreaks text.toList
  ofText (if text.head? = some '\ufeff' then text.tail else text)

/-! ## Variables in values -/

/-- A variable that a value refers to. -/
structure Reference where
  name : String
  /-- What stands in for a variable that is not set. -/
  default : List Char

/-- Reads the rest of a reference, which starts behind its opening brace, with the text behind
it. -/
def readReference? (text : List Char) : Option (Reference × List Char) :=
  let inName (c : Char) : Bool := c != '\x7d' && c != ':'
  let name := String.ofList (text.takeWhile inName)
  match text.dropWhile inName with
  | '\x7d' :: behind => some (⟨name, []⟩, behind)
  | ':' :: '-' :: rest =>
    match rest.dropWhile (· != '\x7d') with
    | [] => none
    | _ :: behind => some (⟨name, rest.takeWhile (· != '\x7d')⟩, behind)
  | _ => none

private theorem length_readReference?_lt {text : List Char} {reading : Reference × List Char}
    (h : readReference? text = some reading) : reading.2.length < text.length := by
  dsimp only [readReference?] at h
  split at h
  · next hd =>
    have := length_dropWhile_le (fun c => c != '\x7d' && c != ':') text
    cases h; simp [hd] at this ⊢; omega
  · next rest hd =>
    have hname := length_dropWhile_le (fun c => c != '\x7d' && c != ':') text
    have hrest := length_dropWhile_le (· != '\x7d') rest
    split at h
    · cases h
    · next hb => cases h; simp [hd, hb] at hname hrest ⊢; omega
  · cases h

/-- Puts the values of variables in for references to them. -/
def expand (value? : String → Option String) : List Char → List Char
  | '$' :: '\x7b' :: rest =>
    match _h : readReference? rest with
    | some (r, behind) =>
      ((value? r.name).map String.toList).getD r.default ++ expand value? behind
    | none => '$' :: expand value? ('\x7b' :: rest)
  | c :: rest => c :: expand value? rest
  | [] => []
termination_by text => text.length
decreasing_by
  · have := length_readReference?_lt _h
    simp only [List.length_cons] at this ⊢; omega
  · simp
  · simp

/-- The names of the variables that a value refers to. -/
def references : List Char → List String
  | '$' :: '\x7b' :: rest =>
    match _h : readReference? rest with
    | some (r, behind) => r.name :: references behind
    | none => references ('\x7b' :: rest)
  | _ :: rest => references rest
  | [] => []
termination_by text => text.length
decreasing_by
  · have := length_readReference?_lt _h
    simp only [List.length_cons] at this ⊢; omega
  · simp
  · simp

/-- Only the values of the variables count that a value refers to. -/
theorem expand_congr {f g : String → Option String} {text : List Char}
    (h : ∀ name ∈ references text, f name = g name) : expand f text = expand g text := by
  fun_induction references text with
  | case1 rest r behind hread ih =>
    have hname := h r.name List.mem_cons_self
    have hbehind := ih fun name hmem => h name (List.mem_cons_of_mem _ hmem)
    rw [expand, expand]
    split <;> simp_all
  | case2 rest hread ih =>
    rw [expand, expand]
    split <;> simp_all
  | case3 c rest hnot ih => rw [expand.eq_2 f c rest hnot, expand.eq_2 g c rest hnot, ih h]
  | case4 => rw [expand, expand]

/-- The names in a setting: that of its variable, and those of the variables that it refers to. -/
def names (s : Setting) : List String :=
  s.name :: (s.value?.map fun value => references value.toList).getD []

end Setting

end SchemaView
