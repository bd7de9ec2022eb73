import ContractAbi.Address.Basic
import ContractAbi.Cell.Basic

/-!
# Building cells

A builder is a cell in the making, and carries the limits of a cell: nothing is appended to it but
what there is room for. Every store first checks that there is room for all of it, so that a store
that fails leaves the builder as it was.
-/

namespace ContractAbi

open Cell (maxBits maxRefs snake)

/-- The bits and references stored so far, never more of them than a cell takes. -/
structure Builder where
  bits : List Bool
  refs : List Cell
  bits_le : bits.length ≤ maxBits
  refs_le : refs.length ≤ maxRefs

/-- A step of building. -/
abbrev Store := EStateM CellError Builder Unit

namespace Builder

/-- The builder that nothing is stored in. -/
def empty : Builder := ⟨[], [], Nat.zero_le _, Nat.zero_le _⟩

/-- How many more bits fit. -/
def bitsLeft (b : Builder) : Nat := maxBits - b.bits.length

/-- How many more references fit. -/
def refsLeft (b : Builder) : Nat := maxRefs - b.refs.length

/-- The builder with more bits and references behind those that it holds. -/
def append (b : Builder) (bits : List Bool) (refs : List Cell) (bitRoom : bits.length ≤ b.bitsLeft)
    (refRoom : refs.length ≤ b.refsLeft) : Builder where
  bits := b.bits ++ bits
  refs := b.refs ++ refs
  bits_le := by
    rw [List.length_append, Nat.add_comm]
    exact Nat.add_le_of_le_sub b.bits_le bitRoom
  refs_le := by
    rw [List.length_append, Nat.add_comm]
    exact Nat.add_le_of_le_sub b.refs_le refRoom

/-- The finished cell. -/
def build (b : Builder) : Cell := ⟨b.bits, b.refs⟩

end Builder

namespace Store

/-- Fails. -/
def fail (e : CellError) : Store := throw e

/-- Fails unless so many bits fit. -/
def needBits (n : Nat) : Store := do
  let b ← get
  if n > b.bitsLeft then throw (.bitOverflow n b.bitsLeft)

/-- Fails unless so many references fit. -/
def needRefs (n : Nat) : Store := do
  let b ← get
  if n > b.refsLeft then throw .refOverflow

/-- Appends bits if they fit. -/
def bits (bits : List Bool) : Store := fun b =>
  if room : bits.length ≤ b.bitsLeft then .ok () (b.append bits [] room (Nat.zero_le _))
  else .error (.bitOverflow bits.length b.bitsLeft) b

/-- A single bit. -/
def bit (b : Bool) : Store := bits [b]

/-- Whole bytes. -/
def bytes (data : List UInt8) : Store := bits (Bits.ofBytes data)

/-- An unsigned number of at most 64 bits. -/
def u64 (value : UInt64) (width : Nat) : Store :=
  if width > 64 then fail (.invalidWidth width)
  else if value.toNat ≥ Bits.limit width then fail (.valueOutOfRange width)
  else bits (Bits.ofNat width value.toNat)

/-- Whether a number has a two's complement form of this width. -/
def fitsSigned (v : Int) (width : Nat) : Prop :=
  -(Bits.limit (width - 1) : Int) ≤ v ∧ v < Bits.limit (width - 1)

instance (v : Int) (width : Nat) : Decidable (fitsSigned v width) :=
  inferInstanceAs (Decidable (_ ∧ _))

/-- A signed number of at most 64 bits, in two's complement. -/
def i64 (value : Int64) (width : Nat) : Store :=
  if width = 0 ∨ width > 64 then fail (.invalidWidth width)
  else if ¬ fitsSigned value.toInt width then fail (.valueOutOfRange width)
  else bits (Bits.ofInt width value.toInt)

/-- An unsigned number of any width. -/
def uint (value width : Nat) : Store :=
  if value ≥ Bits.limit width then fail (.valueOutOfRange width)
  else bits (Bits.ofNat width value)

/-- A signed number of any width, in two's complement. -/
def int (value : Int) (width : Nat) : Store :=
  if width = 0 then fail (.invalidWidth width)
  else if ¬ fitsSigned value width then fail (.valueOutOfRange width)
  else bits (Bits.ofInt width value)

/-- How many bits hold every length below the bound. -/
def headerBits (bound : Nat) : Nat := Bits.size (bound - 1)

/-- A number of bits as a 16-bit word. -/
def wordBits (n : Nat) : Nat := n % 65536

/-- A number behind its length in bytes, which is below the bound. -/
def varUInt (value bound : Nat) : Store :=
  let length := Bits.byteSize value
  if bound = 0 then fail (.invalidWidth bound)
  else if length ≥ bound then fail (.varUIntOverflow length bound)
  else do
    needBits (headerBits bound + length * 8)
    u64 (UInt64.ofNat length) (headerBits bound)
    uint value (wordBits (length * 8))

/-- An address, or the mark that there is none. -/
def address : Option Address → Store
  | none => u64 0 2
  | some a => do
    needBits Address.bitLength
    u64 4 3
    i64 a.workchain.toInt64 8
    bytes a.hash

/-- A reference. -/
def ref (c : Cell) : Store := fun b =>
  if room : 1 ≤ b.refsLeft then .ok () (b.append [] [c] (Nat.zero_le _) room)
  else .error .refOverflow b

/-- A bit that tells whether there is a reference, and the reference. -/
def maybeRef : Option Cell → Store
  | none => bit false
  | some c => do
    needBits 1
    needRefs 1
    bit true
    ref c

/-- A text: as many bytes as fit, and the rest in a chain of cells behind a new reference. -/
def text (s : String) : Store := do
  let b ← get
  let utf8 := s.toUTF8.toList
  let inline := b.bitsLeft / 8
  if utf8.length > inline then needRefs 1
  bytes (utf8.take inline)
  if utf8.length > inline then ref (snake (utf8.drop inline))

end Store

end ContractAbi
