import ContractAbi.Cell.Buffer
import ContractAbi.Cell.Slice

/-!
# Scanning cells

A scan reads a cell bit by bit out of its bytes. It moves on with every bit, and where it is refused
after that it has to put the slice back by hand; of that, it only puts back the position among the
bits. Every load has its scan.
-/

namespace ContractAbi

/-- Why a scan ends without a value: it looks for a byte that the cell does not have, or it is
refused like a load. -/
inductive ScanFault where
  | outside (index : Nat)
  | refused (e : CellError)
  deriving DecidableEq

/-- A step of scanning. -/
abbrev Scan := EStateM ScanFault Slice

namespace Scan

/-- Is refused. -/
def fail {α : Type} (e : CellError) : Scan α := throw (.refused e)

/-- Is refused unless so many bits are left. -/
def needBits (n : Nat) : Scan Unit := do
  let s ← get
  if n > s.bitsLeft then fail (.underflow n s.bitsLeft)

/-- The byte at an index. -/
def byte (index : Nat) : Scan UInt8 := do
  match (← get).cell.data[index]? with
  | some byte => return byte
  | none => throw (.outside index)

/-- The next bit, without a check that there is one. -/
def takeBit : Scan Bool := do
  let s ← get
  let byte ← byte (s.bitPos / 8)
  set { s with bitPos := s.bitPos + 1 }
  return Bits.isSet byte (s.bitPos % 8)

/-- The next bits, each of which is added to what has come of those before it. -/
def takeBits {α : Type} (add : α → Bool → α) : Nat → α → Scan α
  | 0, value => return value
  | n + 1, value => do takeBits add n (add value (← takeBit))

/-- Goes back to a position among the bits. -/
def rewind (bitPos : Nat) : Scan Unit := modify fun s => { s with bitPos }

/-- Runs a scan, and goes back to a position among the bits if it is refused. -/
def rewinding {α : Type} (bitPos : Nat) (scan : Scan α) : Scan α := fun s =>
  match scan s with
  | .error (.refused e) t => .error (.refused e) { t with bitPos }
  | result => result

/-- A single bit. -/
def bit : Scan Bool := do
  needBits 1
  takeBit

/-- An unsigned number of at most 64 bits. -/
def u64 (width : Nat) : Scan UInt64 :=
  if width > 64 then fail (.invalidWidth width)
  else do
    needBits width
    takeBits (fun value bit => value <<< 1 ||| bit.toUInt64) width 0

/-- A signed number of at most 64 bits: its sign comes down from the highest bit. -/
def i64 (width : Nat) : Scan Int64 :=
  if width = 0 ∨ width > 64 then fail (.invalidWidth width)
  else do
    let raw ← u64 width
    return (raw <<< UInt64.ofNat (64 - width)).toInt64 >>> Int64.ofNat (64 - width)

/-- An unsigned number of any width. -/
def uint (width : Nat) : Scan Nat := do
  needBits width
  takeBits (fun value bit => value <<< 1 + bit.toNat) width 0

/-- A signed number of any width. -/
def int (width : Nat) : Scan Int :=
  if width = 0 then fail (.invalidWidth width)
  else do
    let raw ← uint width
    return if raw.testBit (width - 1) then (raw : Int) - Bits.limit width else raw

/-- A number behind its length in bytes, which is below the bound. -/
def varUInt (bound : Nat) : Scan Nat :=
  if bound = 0 then fail (.invalidWidth bound)
  else do
    let start := (← get).bitPos
    let length := (← u64 (Store.headerBits bound)).toNat
    if length ≥ bound then
      rewind start
      fail (.varUIntOverflow length bound)
    else rewinding start (uint (Store.wordBits (length * 8)))

/-- Whole bytes. -/
def bytes : Nat → Scan (List UInt8)
  | 0 => return []
  | n + 1 => do
    let byte ← u64 8
    return byte.toUInt8 :: (← bytes n)

/-- An address, or the mark that there is none, without the way back. -/
def readAddress : Scan (Option Address) := do
  let tag ← u64 2
  if tag = 0 then return none
  else if tag = 2 then
    if (← bit) then fail .invalidAddress
    else
      needBits (Address.bitLength - 3)
      let workchain ← i64 8
      let hash ← bytes 32
      match Address.ofHash? workchain.toInt8 hash with
      | some a => return some a
      | none => fail .invalidAddress
  else fail .invalidAddress

/-- An address, or the mark that there is none. -/
def address : Scan (Option Address) := do
  let start := (← get).bitPos
  rewinding start readAddress

/-- An address that has to be there. -/
def standardAddress : Scan Address := do
  let start := (← get).bitPos
  match (← address) with
  | some a => return a
  | none =>
    rewind start
    fail .invalidAddress

/-- A reference. -/
def ref : Scan Cell := do
  let s ← get
  match s.cell.ref? s.refPos with
  | some c =>
    set { s with refPos := s.refPos + 1 }
    return c
  | none => fail .refUnderflow

/-- The bit at a position, if there is one. -/
def peek (index : Nat) : Scan (Option Bool) := do
  if index ≥ (← get).cell.bitLength then return none
  else return some (Bits.isSet (← byte (index / 8)) (index % 8))

/-- The bits from a position on, if there are as many, put behind the bits of a word. -/
def peekBits (offset : Nat) : Nat → UInt64 → Scan (Option UInt64)
  | 0, value => return some value
  | n + 1, value => do
    match (← peek offset) with
    | some bit => peekBits (offset + 1) n (value <<< 1 ||| bit.toUInt64)
    | none => return none

/-- The unsigned number in at most 64 bits from a position on. -/
def peekU64 (offset width : Nat) : Scan (Option UInt64) := do
  if width > 64 ∨ offset + width > (← get).cell.bitLength then return none
  else peekBits offset width 0

/-- A bit that tells whether there is a reference, and the reference. -/
def maybeRef : Scan (Option Cell) := do
  needBits 1
  let s ← get
  let next ← peek s.bitPos
  if next = some true ∧ s.refsLeft = 0 then fail .refUnderflow
  else if (← takeBit) then return some (← ref)
  else return none

/-- The bytes behind the next reference, if the cell has no room for another byte. They are looked
through, but not yet taken. -/
def chainBytes : Scan (Option (List UInt8)) := do
  let s ← get
  if s.cell.bits.length + 8 > Cell.maxBits ∧ s.refsLeft > 0 then
    match s.cell.ref? s.refPos with
    | none => fail .refUnderflow
    | some c =>
      match c.snakeBytes? with
      | none => fail .notByteAligned
      | some bytes => return some bytes
  else return none

/-- A text: byte for byte all that is left, and the bytes behind the next reference. -/
def text : Scan String := do
  if (← get).bitsLeft % 8 ≠ 0 then fail .notByteAligned
  else
    let chain ← chainBytes
    let inline ← bytes ((← get).bitsLeft / 8)
    modify fun s => { s with refPos := s.refPos + chain.toList.length }
    match textOfBytes? (inline ++ chain.getD []) with
    | some t => return t
    | none => fail .invalidUtf8

end Scan

end ContractAbi
