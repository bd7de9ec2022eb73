import ContractAbi.Text.Ascii

/-!
# Bytes in hexadecimal

Two digits a byte, the high half first. Writing uses lower case; reading takes either case and
refuses an odd digit or any other character. `decode_digits` says that reading undoes writing.
-/

namespace ContractAbi.Text.Hex

/-- The two digits of a byte. -/
def byteDigits (b : UInt8) : List Char := [hexDigit (b.toNat / 16), hexDigit (b.toNat % 16)]

/-- The digits of a byte sequence. -/
def digits (bytes : List UInt8) : List Char := bytes.flatMap byteDigits

/-- `digits` as a string. -/
def encode (bytes : List UInt8) : String := String.ofList (digits bytes)

/-- The bytes that the digits stand for. -/
def decode : List Char → Option (List UInt8)
  | [] => some []
  | [_] => none
  | a :: b :: rest => do
    let high ← hexValue? a
    let low ← hexValue? b
    let bytes ← decode rest
    return UInt8.ofNat (16 * high + low) :: bytes

/-- Bytes are read from the digits that are written for them. -/
theorem decode_digits (bytes : List UInt8) : decode (digits bytes) = some bytes := by
  induction bytes with
  | nil => rfl
  | cons b bytes ih =>
    have hb := b.toNat_lt
    have high : b.toNat / 16 < 16 := by omega
    have low : b.toNat % 16 < 16 := by omega
    have whole : 16 * (b.toNat / 16) + b.toNat % 16 = b.toNat := by omega
    have step : digits (b :: bytes) =
        hexDigit (b.toNat / 16) :: hexDigit (b.toNat % 16) :: digits bytes := rfl
    rw [step, decode, hexValue?_hexDigit _ high, hexValue?_hexDigit _ low, ih]
    simp only [bind, Option.bind, pure, whole, UInt8.ofNat_toNat]

end ContractAbi.Text.Hex
