/-!
# Checksums

The cyclic redundancy check with the polynomial x¹⁶ + x¹² + x⁵ + 1, highest bit first, starting
from zero.
-/

namespace ContractAbi.Checksum

/-- Moves the register on by one bit. -/
def step (crc : UInt16) : UInt16 :=
  if crc &&& 0x8000 = 0 then crc <<< 1 else (crc <<< 1) ^^^ 0x1021

/-- Moves the register on by `n` bits. -/
def steps : Nat → UInt16 → UInt16
  | 0, crc => crc
  | n + 1, crc => steps n (step crc)

/-- Takes in one byte. -/
def takeByte (crc : UInt16) (b : UInt8) : UInt16 := steps 8 (crc ^^^ (b.toUInt16 <<< 8))

/-- The checksum of a byte sequence. -/
def crc16 (bytes : List UInt8) : UInt16 := bytes.foldl takeByte 0

/-- The bytes of a checksum, the high one first. -/
def bytes (crc : UInt16) : List UInt8 := [UInt8.ofNat (crc.toNat / 256), UInt8.ofNat crc.toNat]

end ContractAbi.Checksum
