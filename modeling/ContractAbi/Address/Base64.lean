/-!
# Base 64 without padding

The base 64 alphabet that is safe in URLs. Three bytes are four characters. A last group of one byte
is two characters and one of two bytes is three, with zeros in the places that its bytes do not
fill; nothing is put behind them. Reading refuses a last group whose spare places are not zero, and
a character that is left over alone, so that each byte sequence has one text.
-/

namespace ContractAbi.Base64

/-- The 64 characters in the order of their values. -/
def alphabet : List Char :=
  "ABCDEFGHIJKLMNOPQRSTUVWXYZabcdefghijklmnopqrstuvwxyz0123456789-_".toList

/-- The character of a value; larger values wrap. -/
def char (n : Nat) : Char := alphabet.getD (n % 64) 'A'

/-- The value of a character. -/
def value? (c : Char) : Option Nat := alphabet.findIdx? (· == c)

/-- The four characters of three bytes. -/
def group (a b c : UInt8) : List Char :=
  let n := 65536 * a.toNat + 256 * b.toNat + c.toNat
  [char (n / 262144), char (n / 4096), char (n / 64), char n]

/-- The three bytes of four characters. -/
def ungroup? (w x y z : Char) : Option (UInt8 × UInt8 × UInt8) := do
  let n := 262144 * (← value? w) + 4096 * (← value? x) + 64 * (← value? y) + (← value? z)
  return (UInt8.ofNat (n / 65536), UInt8.ofNat (n / 256), UInt8.ofNat n)

/-- The characters of a byte sequence. -/
def encode : List UInt8 → List Char
  | [] => []
  | [a] => (group a 0 0).take 2
  | [a, b] => (group a b 0).take 3
  | a :: b :: c :: rest => group a b c ++ encode rest

/-- The bytes of a text. A last group is filled up with zeros, and the bytes that come of these must
be zero too. -/
def decode : List Char → Option (List UInt8)
  | [] => some []
  | [_] => none
  | [w, x] => do
    let (a, b, c) ← ungroup? w x 'A' 'A'
    if b = 0 ∧ c = 0 then return [a] else none
  | [w, x, y] => do
    let (a, b, c) ← ungroup? w x y 'A'
    if c = 0 then return [a, b] else none
  | w :: x :: y :: z :: rest => do
    let (a, b, c) ← ungroup? w x y z
    return a :: b :: c :: (← decode rest)

end ContractAbi.Base64
