/-!
# Quotients with a fixed number of decimals

A quotient of two natural numbers is kept with so many binary digits and shown with so many
decimals. Both times it is rounded to the nearest number of that form, and a tie goes to the even
one. The first rounding decides whether a quotient that lies halfway between two decimals, as
1/640 does for six of them, is a tie when it is shown: only those with a power of two below are.
-/

namespace SchemaView.Text

/-- A quotient rounded to the nearest whole number, a half to the even neighbour. -/
def roundQuotient (numerator denominator : Nat) : Nat :=
  let quotient := numerator / denominator
  -- Twice the remainder is compared, which avoids halves.
  let twice := 2 * (numerator % denominator)
  if twice < denominator then quotient
  else if denominator < twice then quotient + 1
  else if quotient % 2 = 0 then quotient else quotient + 1

/-- The nearest quotient with a power of two below that has a numerator of `digits` binary digits.
The given quotient is at most one. -/
def binaryQuotient (digits numerator denominator : Nat) : Nat × Nat :=
  -- With this power the numerator has the wanted number of digits or one more.
  let power := digits + Nat.log2 denominator - Nat.log2 numerator
  let isLong := denominator * Nat.pow 2 digits ≤ numerator * Nat.pow 2 power
  let below := Nat.pow 2 (if isLong then power - 1 else power)
  (roundQuotient (numerator * below) denominator, below)

/-- A quotient with `places` decimals. -/
def fixedQuotient (places numerator denominator : Nat) : String :=
  let unit := Nat.pow 10 places
  let scaled := roundQuotient (numerator * unit) denominator
  let fraction := Nat.toDigits 10 (scaled % unit)
  toString (scaled / unit) ++ "."
    ++ String.ofList (List.replicate (places - fraction.length) '0' ++ fraction)

end SchemaView.Text
