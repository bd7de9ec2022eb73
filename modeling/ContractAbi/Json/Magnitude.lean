import ContractAbi.Text.Decimal

/-!
# The range of numbers

Whether a decimal number is too large for a 64-bit floating-point number. The number is taken as
the leading digits that fit in a 64-bit word, times a power of ten; both factors are rounded before
they are multiplied, and the product is out of range where it rounds to infinity.
-/

namespace ContractAbi.Json.Magnitude

/-- The first number that does not fit in a 64-bit word. -/
def wordBound : Nat := Nat.pow 2 64

/-- The least whole number that rounds to infinity as a 64-bit floating-point number: half a unit
above the largest finite one. -/
def infinityBound : Nat := Nat.pow 2 1024 - Nat.pow 2 970

/-- The number with 53 significant binary digits that is nearest to `n`; of two, the one with the
even last digit. -/
def rounded (n : Nat) : Nat :=
  let unit := Nat.pow 2 (n.log2 - 52)
  let twice := 2 * (n % unit)
  let units := n / unit
  (if twice < unit ∨ (twice = unit ∧ units % 2 = 0) then units else units + 1) * unit

/-- The digits of `digits` written behind `n` up to the first that does not fit in the word, and
how many are left. -/
def appendDigits (n : Nat) (digits : List Char) : Nat × Nat :=
  match digits with
  | [] => (n, 0)
  | d :: ds =>
    let next := 10 * n + Text.Decimal.value [d]
    if next < wordBound then appendDigits next ds else (n, ds.length + 1)

/-- Whether the number of the digits `whole` before the point and `tenths` behind it, times
`10 ^ power`, is out of range. Whole digits that do not fit in the word count as a power of ten,
tenths that do not fit count for nothing, and no tenth digit follows one that does not fit. -/
def isOutOfRange (whole tenths : List Char) (power : Int) : Bool :=
  let (n, uncounted) := appendDigits 0 whole
  let (n, dropped) := appendDigits n tenths
  let exponent : Int := uncounted - (tenths.length - dropped : Nat) + power
  if n = 0 ∨ exponent < 0 then false
  else if 308 < exponent then true
  else decide (infinityBound ≤ rounded n * rounded (Nat.pow 10 exponent.toNat))

end ContractAbi.Json.Magnitude
