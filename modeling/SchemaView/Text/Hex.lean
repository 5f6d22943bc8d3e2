/-!
# Hexadecimal digits

Writing and reading numbers in base sixteen, as escapes, character names and digests need it.
-/

namespace SchemaView.Text

/-- The digits of a number in base sixteen, lower case, with zeros in front up to a width. -/
def hexDigits (width n : Nat) : List Char :=
  let digits := Nat.toDigits 16 n
  List.replicate (width - digits.length) '0' ++ digits

/-- As `hexDigits`, in upper case. -/
def hexDigitsUpper (width n : Nat) : List Char := (hexDigits width n).map Char.toUpper

/-- The value of a hexadecimal digit of either case. -/
def hexValue? (c : Char) : Option Nat :=
  if '0' ≤ c ∧ c ≤ '9' then some (c.toNat - '0'.toNat)
  else if 'a' ≤ c ∧ c ≤ 'f' then some (c.toNat - 'a'.toNat + 10)
  else if 'A' ≤ c ∧ c ≤ 'F' then some (c.toNat - 'A'.toNat + 10)
  else none

/-- The number written by a list of hexadecimal digits, if all of them are digits. -/
def hexNumber? (digits : List Char) : Option Nat :=
  digits.foldl (fun n? c => do pure ((← n?) * 16 + (← hexValue? c))) (some 0)

/-- The character with a given code point, unless that code point is a surrogate or beyond the
last plane. -/
def charOfCode? (n : Nat) : Option Char :=
  if h : n.isValidChar then some (Char.ofNatAux n h) else none

end SchemaView.Text
