/-!
# Decimal numbers

Reading whole numbers the way configuration values and type bounds are written: ASCII digits, any
number of leading zeros, and a plus sign that changes nothing.
-/

namespace ContractAbi.Text.Decimal

/-- The value of a run of ASCII digits. -/
def value (digits : List Char) : Nat :=
  digits.foldl (fun n c => 10 * n + (c.toNat - '0'.toNat)) 0

/-- One or more ASCII digits. -/
def isDigits (cs : List Char) : Bool := !cs.isEmpty && cs.all Char.isDigit

/-- A number without sign, at most `limit`. -/
def digits? (limit : Nat) (cs : List Char) : Option Nat :=
  if isDigits cs && decide (value cs ≤ limit) then some (value cs) else none

/-- A number at most `limit`; a plus sign may stand before it. -/
def natural? (limit : Nat) (cs : List Char) : Option Nat :=
  match cs with
  | '+' :: digits => digits? limit digits
  | digits => digits? limit digits

/-- A whole number from `low` to `high`; either sign may stand before it. -/
def integer? (low high : Int) (cs : List Char) : Option Int :=
  let (negative, digits) :=
    match cs with
    | '-' :: ds => (true, ds)
    | '+' :: ds => (false, ds)
    | ds => (false, ds)
  let v : Int := if negative then -(value digits : Int) else value digits
  if isDigits digits && decide (low ≤ v) && decide (v ≤ high) then some v else none

end ContractAbi.Text.Decimal
