import SchemaView.Text.Blank

/-!
# Whole numbers in settings

A whole number is written with an optional sign and decimal digits, between which a single
underscore may stand; white space around it does not count, the separators FS, GS, RS and US
apart. The digits of every script that writes decimal numbers are read. A number with more digits
than `maxDigits` is not read.
-/

namespace SchemaView.Text

/-- The zeros of the scripts that write decimal numbers; the digits one to nine follow each. -/
def decimalZeros : List Nat :=
  [0x30, 0x660, 0x6f0, 0x7c0, 0x966, 0x9e6, 0xa66, 0xae6, 0xb66, 0xbe6, 0xc66, 0xce6, 0xd66,
   0xde6, 0xe50, 0xed0, 0xf20, 0x1040, 0x1090, 0x17e0, 0x1810, 0x1946, 0x19d0, 0x1a80, 0x1a90,
   0x1b50, 0x1bb0, 0x1c40, 0x1c50, 0xa620, 0xa8d0, 0xa900, 0xa9d0, 0xa9f0, 0xaa50, 0xabf0,
   0xff10, 0x104a0, 0x10d30, 0x11066, 0x110f0, 0x11136, 0x111d0, 0x112f0, 0x11450, 0x114d0,
   0x11650, 0x116c0, 0x11730, 0x118e0, 0x11950, 0x11c50, 0x11d50, 0x11da0, 0x16a60, 0x16ac0,
   0x16b50, 0x1d7ce, 0x1d7d8, 0x1d7e2, 0x1d7ec, 0x1d7f6, 0x1e140, 0x1e2f0, 0x1e950, 0x1fbf0]

/-- The value of a decimal digit of any script. -/
def digitValue? (c : Char) : Option Nat :=
  (decimalZeros.find? fun first => first ≤ c.toNat && c.toNat < first + 10).map (c.toNat - ·)

/-- Reads digits with single underscores between them, after digits worth `n`. An underscore
needs a digit on both sides. -/
def readDigits (n : Nat) (afterDigit : Bool) : List Char → Option Nat
  | [] => if afterDigit then some n else none
  | c :: rest =>
    if c = '_' then
      if afterDigit then readDigits n false rest else none
    else
      match digitValue? c with
      | some d => readDigits (n * 10 + d) true rest
      | none => none

/-- White space that may surround a number. -/
def isNumberBlank (c : Char) : Bool := isBlank c && !(28 ≤ c.toNat && c.toNat ≤ 31)

/-- The greatest number of digits of a number, zeros in front counted. -/
def maxDigits : Nat := 4300

/-- Reads a number without a sign. -/
def readNat? (text : List Char) : Option Nat :=
  if maxDigits < text.countP (· != '_') then none else readDigits 0 false text

/-- Reads a whole number. -/
def readInt? (text : String) : Option Int :=
  match trimWhile isNumberBlank text.toList with
  | '-' :: digits => (readNat? digits).map fun n => -(n : Int)
  | '+' :: digits => (readNat? digits).map fun n => (n : Int)
  | digits => (readNat? digits).map fun n => (n : Int)

end SchemaView.Text
