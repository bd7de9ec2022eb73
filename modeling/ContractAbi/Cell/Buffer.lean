import ContractAbi.Cell.Builder

/-!
# Bits in bytes

The first bit of a byte is its highest. A buffer takes bits one at a time and adds a byte of zeros
whenever the last one is full, so that there is room behind its bits only in the last byte.
-/

namespace ContractAbi

namespace Bits

/-- The byte in which only the bit at a place is set. -/
def mask (place : Nat) : UInt8 := 0x80 >>> UInt8.ofNat place

/-- Whether the bit at a place of a byte is set. -/
def isSet (byte : UInt8) (place : Nat) : Bool := byte &&& mask place != 0

/-- Bytes that bits are written into, and the number of these bits. -/
structure Buffer where
  data : List UInt8
  bitLength : Nat
  deriving DecidableEq

namespace Buffer

/-- The buffer without bits. -/
def empty : Buffer := ⟨[], 0⟩

/-- Writes a bit. -/
def push (b : Buffer) (bit : Bool) : Buffer :=
  let place := b.bitLength % 8
  let data := if place = 0 then b.data ++ [0] else b.data
  ⟨if bit then data.modify (data.length - 1) (· ||| mask place) else data, b.bitLength + 1⟩

/-- Writes bits one after the other. -/
def pushAll (b : Buffer) (bits : List Bool) : Buffer := bits.foldl push b

/-- The bit at a position of the bytes. -/
def bit? (b : Buffer) (index : Nat) : Option Bool :=
  b.data[index / 8]?.map fun byte => isSet byte (index % 8)

end Buffer

end Bits

/-- The bits of a builder in bytes. -/
def Builder.buffer (b : Builder) : Bits.Buffer := Bits.Buffer.empty.pushAll b.bits

end ContractAbi
