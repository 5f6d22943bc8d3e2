import SchemaView.Sdl.BlockString
import SchemaView.Sdl.Fault

/-!
# From characters to tokens

Scanning turns a text into a stream of lexemes. A stream ends where the text ends or at the first
fault, so that a reader that stops early never meets a fault behind the place where it stopped.

The functions on the rest of a text return what they read together with the cursor behind it.
-/

namespace SchemaView.Sdl

/-- The unread rest of a text and its position. -/
structure Cursor where
  rest : List Char
  position : Position

namespace Cursor

/-- The cursor after `n` characters that hold no line break. -/
def skip (c : Cursor) (n : Nat) : Cursor := ⟨c.rest.drop n, c.position.right n⟩

/-- The cursor in front of a text. -/
def start (text : String) : Cursor := ⟨text.toList, .start⟩

end Cursor

/-- Spaces, tabs, commas and byte order marks separate tokens. -/
def isSeparator (c : Char) : Bool := c == ' ' || c == '\t' || c == ',' || c == '\ufeff'

/-- Passes over line breaks, separators and comments, which reach from a number sign to the end
of the line. A CRLF counts at its LF. -/
def skipIgnored (inComment : Bool) : List Char → Position → Cursor
  | [], p => ⟨[], p⟩
  | c :: rest, p =>
    if c = '\n' then skipIgnored false rest p.nextLine
    else if c = '\r' then
      skipIgnored false rest (if rest.head? = some '\n' then p else p.nextLine)
    else if inComment || isSeparator c then skipIgnored inComment rest (p.right 1)
    else if c = '#' then skipIgnored true rest (p.right 1)
    else ⟨c :: rest, p⟩

/-- A piece of a number: the characters read and the cursor behind them. -/
abbrev Piece := List Char × Cursor

/-- Reads one digit or more. -/
def scanDigits (c : Cursor) : Except Fault Piece :=
  let digits := c.rest.takeWhile Char.isDigit
  if digits.isEmpty then .error ⟨.digitExpected c.rest.head?, c.position⟩
  else .ok (digits, c.skip digits.length)

/-- Reads the digits in front of the point: a zero, which no digit may follow, or a number. -/
def scanWhole (c : Cursor) : Except Fault Piece :=
  match c.rest with
  | '0' :: rest =>
    match rest.head? with
    | some d =>
      if d.isDigit then .error ⟨.digitAfterZero d, c.position.right 1⟩
      else .ok (['0'], c.skip 1)
    | none => .ok (['0'], c.skip 1)
  | _ => scanDigits c

/-- Reads the part from the point on, if there is one. -/
def scanFraction (c : Cursor) : Except Fault Piece :=
  match c.rest with
  | '.' :: _ => do
    let (digits, c) ← scanDigits (c.skip 1)
    .ok ('.' :: digits, c)
  | _ => .ok ([], c)

/-- Reads the exponent, if there is one. -/
def scanExponent (c : Cursor) : Except Fault Piece :=
  match c.rest with
  | e :: rest =>
    if e = 'e' ∨ e = 'E' then do
      match rest.head? with
      | some sign =>
        if sign = '+' ∨ sign = '-' then
          let (digits, c) ← scanDigits (c.skip 2)
          .ok (e :: sign :: digits, c)
        else
          let (digits, c) ← scanDigits (c.skip 1)
          .ok (e :: digits, c)
      | none =>
        let (digits, c) ← scanDigits (c.skip 1)
        .ok (e :: digits, c)
    else .ok ([], c)
  | [] => .ok ([], c)

/-- Reads a number. Neither a point nor the start of a name may follow it. -/
def scanNumber (c : Cursor) : Except Fault (Token × Cursor) := do
  let sign : List Char := if c.rest.head? = some '-' then ['-'] else []
  let (whole, c) ← scanWhole (c.skip sign.length)
  let (fraction, c) ← scanFraction c
  let (exponent, c) ← scanExponent c
  let text := String.ofList (sign ++ whole ++ fraction ++ exponent)
  -- Numbers that run on into a name or a further point are no two tokens.
  match c.rest.head? with
  | some d =>
    if d = '.' || isNameStart d then throw ⟨.digitExpected (some d), c.position⟩
  | none => pure ()
  pure (if fraction.isEmpty && exponent.isEmpty then .int text else .float text, c)

/-- The character that a backslash and a letter write. -/
def simpleEscape? : Char → Option Char
  | '"' => some '"' | '\\' => some '\\' | '/' => some '/' | 'b' => some '\x08'
  | 'f' => some '\x0c' | 'n' => some '\n' | 'r' => some '\r' | 't' => some '\t'
  | _ => none

/-- The characters of an escape in braces that are looked at: up to a closing brace or the first
character that is no hexadecimal digit, and no more than `n`. -/
def bracedEscapeText : Nat → List Char → List Char
  | 0, _ => []
  | _, [] => []
  | n + 1, c :: rest =>
    if (Text.hexValue? c).isSome then c :: bracedEscapeText n rest else [c]

/-- Reads the escape of a code point in braces. The characters given start at the backslash; the
answer is the character and how many characters write it. -/
def bracedEscape (chars : List Char) : Except Cause (Char × Nat) :=
  let body := bracedEscapeText 9 (chars.drop 3)
  let text := String.ofList (chars.take 3 ++ body)
  if body.getLast? = some '\x7d' ∧ body.length ≥ 2 then
    match (Text.hexNumber? body.dropLast).bind Text.charOfCode? with
    | some c => .ok (c, 3 + body.length)
    | none => .error (.badCodePoint text)
  else .error (.badCodePoint text)

/-- The code unit that the four digits after a backslash and a `u` write. -/
def codeUnit? : List Char → Option Nat
  | '\\' :: 'u' :: a :: b :: c :: d :: _ => Text.hexNumber? [a, b, c, d]
  | _ => none

/-- Reads the escape of a code point in four digits, or of a pair of surrogates in twice four. -/
def fixedEscape (chars : List Char) : Except Cause (Char × Nat) :=
  let fault : Except Cause (Char × Nat) := .error (.badCodePoint (String.ofList (chars.take 6)))
  match codeUnit? chars with
  | none => fault
  | some unit =>
    match Text.charOfCode? unit with
    | some c => .ok (c, 6)
    | none =>
      -- Half of a surrogate pair needs the other half right behind it.
      match codeUnit? (chars.drop 6) with
      | none => fault
      | some low =>
        if unit < 0xdc00 ∧ 0xdc00 ≤ low ∧ low < 0xe000 then
          match Text.charOfCode? (0x10000 + (unit - 0xd800) * 0x400 + (low - 0xdc00)) with
          | some c => .ok (c, 12)
          | none => fault
        else fault

/-- Reads an escape. The characters given start at the backslash. -/
def scanEscape (chars : List Char) : Except Cause (Char × Nat) :=
  match chars.drop 1 with
  | 'u' :: rest => if rest.head? = some '\x7b' then bracedEscape chars else fixedEscape chars
  | c :: _ =>
    match simpleEscape? c with
    | some e => .ok (e, 2)
    | none => .error (.badEscape (String.ofList (chars.take 2)))
  | [] => .error (.badEscape (String.ofList (chars.take 2)))

/-- Reads a string behind its opening quote; `value` holds what was read, last first. The first
argument bounds the number of steps and is at least the number of characters. -/
def scanString : Nat → List Char → Cursor → Except Fault (Token × Cursor)
  | 0, _, c => .error ⟨.unterminatedString, c.position⟩
  | n + 1, value, c =>
    match c.rest with
    | '"' :: _ => .ok (.string (String.ofList value.reverse), c.skip 1)
    | '\\' :: _ =>
      match scanEscape c.rest with
      | .ok (char, size) => scanString n (char :: value) (c.skip size)
      | .error cause => .error ⟨cause, c.position⟩
    | char :: _ =>
      if Text.isLineBreak char then .error ⟨.unterminatedString, c.position⟩
      else scanString n (char :: value) (c.skip 1)
    | [] => .error ⟨.unterminatedString, c.position⟩

/-- Reads a block string behind its opening quotes. `line` holds the current raw line, last
character first, and `lines` the raw lines before it, last first. -/
def scanBlockString (line : List Char) (lines : List (List Char)) :
    List Char → Position → Except Fault (Token × Cursor)
  | '"' :: '"' :: '"' :: rest, p =>
    .ok (.blockString (String.ofList (BlockString.valueOfLines (line.reverse :: lines).reverse)),
      ⟨rest, p.right 3⟩)
  | '\\' :: '"' :: '"' :: '"' :: rest, p =>
    scanBlockString ('"' :: '"' :: '"' :: line) lines rest (p.right 4)
  | '\r' :: '\n' :: rest, p => scanBlockString [] (line.reverse :: lines) rest p.nextLine
  | c :: rest, p =>
    if Text.isLineBreak c then scanBlockString [] (line.reverse :: lines) rest p.nextLine
    else scanBlockString (c :: line) lines rest (p.right 1)
  | [], p => .error ⟨.unterminatedString, p⟩

/-- Reads the token that starts at a cursor with an unread character. -/
def scanToken (c : Cursor) : Except Fault (Token × Cursor) :=
  match c.rest with
  | [] => .ok (.endOfText, c)
  | '.' :: '.' :: '.' :: _ => .ok (.punctuator .spread, c.skip 3)
  | '"' :: '"' :: '"' :: rest => scanBlockString [] [] rest (c.position.right 3)
  | '"' :: rest => scanString (rest.length + 1) [] (c.skip 1)
  | char :: _ =>
    match Punctuator.ofChar? char with
    | some mark => .ok (.punctuator mark, c.skip 1)
    | none =>
      if isNameStart char then
        let name := c.rest.takeWhile isNameContinue
        .ok (.name (String.ofList name), c.skip name.length)
      else if char.isDigit || char = '-' then scanNumber c
      else if char = '\'' then .error ⟨.singleQuote, c.position⟩
      else .error ⟨.unexpectedCharacter char, c.position⟩

/-- How a stream of lexemes ends. -/
inductive Ending where
  /-- The text ends at a position. -/
  | endOfText (position : Position)
  /-- The next token cannot be read. -/
  | broken (fault : Fault)
deriving Repr

/-- The lexemes of a text up to its end or its first fault. -/
structure Lexemes where
  items : List Lexeme
  ending : Ending
  /-- The number of lexemes, which readers ask for often. -/
  length : Nat
  length_eq : length = items.length

namespace Lexemes

/-- The stream of given lexemes. -/
def ofItems (items : List Lexeme) (ending : Ending) : Lexemes := ⟨items, ending, items.length, rfl⟩

/-- The stream behind its first lexeme. -/
def behindFirst (s : Lexemes) : Lexemes :=
  ⟨s.items.tail, s.ending, s.length - 1, by rw [s.length_eq, List.length_tail]⟩

/-- The lexemes from a cursor on. The first argument bounds their number; the number of unread
characters is enough, since every token is at least one character long. -/
def scan : Nat → Cursor → List Lexeme × Ending
  | 0, c => ([], .endOfText c.position)
  | n + 1, c =>
    let c := skipIgnored false c.rest c.position
    if c.rest.isEmpty then ([], .endOfText c.position)
    else
      match scanToken c with
      | .ok (token, behind) =>
        let (items, ending) := scan n behind
        (⟨token, c.position⟩ :: items, ending)
      | .error fault => ([], .broken fault)

/-- The lexemes of a text. -/
def ofText (text : String) : Lexemes :=
  let c := Cursor.start text
  let (items, ending) := scan (c.rest.length + 1) c
  ofItems items ending

end Lexemes

end SchemaView.Sdl
