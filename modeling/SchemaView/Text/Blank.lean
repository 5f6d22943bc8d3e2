/-!
# White space around values

The white space of Unicode text, as it may surround a number or a name in a list of settings.
-/

namespace SchemaView.Text

/-- The white-space characters of Unicode, with the separators FS, GS, RS and US. -/
def isBlank (c : Char) : Bool :=
  let n := c.toNat
  (9 ≤ n && n ≤ 13) || (28 ≤ n && n ≤ 32) || n == 0x85 || n == 0xa0 || n == 0x1680
    || (0x2000 ≤ n && n ≤ 0x200a) || n == 0x2028 || n == 0x2029 || n == 0x202f || n == 0x205f
    || n == 0x3000

/-- Removes the characters of a class at both ends. -/
def trimWhile (drop : Char → Bool) (text : List Char) : List Char :=
  ((text.dropWhile drop).reverse.dropWhile drop).reverse

/-- Removes white space at both ends. -/
def trim (text : String) : String := String.ofList (trimWhile isBlank text.toList)

/-- Cuts a text at every occurrence of a character; `n` occurrences give `n + 1` parts. The first
argument holds the current part, last character first. -/
def cutAt (sep : Char) (part : List Char) : List Char → List (List Char)
  | [] => [part.reverse]
  | c :: rest =>
    if c = sep then part.reverse :: cutAt sep [] rest else cutAt sep (c :: part) rest

/-- Cuts a text at every occurrence of a character. -/
def split (sep : Char) (text : String) : List String :=
  (cutAt sep [] text.toList).map String.ofList

end SchemaView.Text
