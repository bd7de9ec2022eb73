import ContractAbi.Cell.Builder

/-!
# Reading cells

A slice reads a cell from front to back, with one position among its bits and one among its
references. Each load undoes the store of the same name. A load that fails leaves the slice where
it was; the one exception is a text of bytes that are not UTF-8, which are used up.
-/

namespace ContractAbi

/-- A cell and how far it has been read. -/
structure Slice where
  cell : Cell
  bitPos : Nat
  refPos : Nat
  deriving Inhabited

/-- A step of reading. -/
abbrev Load := EStateM CellError Slice

/-- The slice at the start of a cell. -/
def Cell.slice (c : Cell) : Slice := ⟨c, 0, 0⟩

namespace Slice

/-- How many bits are left. -/
def bitsLeft (s : Slice) : Nat := s.cell.bits.length - s.bitPos

/-- How many references are left. -/
def refsLeft (s : Slice) : Nat := s.cell.refs.length - s.refPos

/-- The bits that are left. -/
def rest (s : Slice) : List Bool := s.cell.bits.drop s.bitPos

end Slice

/-- A text in UTF-8, if the bytes are one. -/
def textOfBytes? (bytes : List UInt8) : Option String := String.fromUTF8? bytes.toByteArray

namespace Load

/-- Runs a load, and puts the slice back if it fails. -/
def atomic {α : Type} (load : Load α) : Load α := fun s =>
  match load s with
  | .ok v s' => .ok v s'
  | .error e _ => .error e s

/-- Fails unless so many bits are left. -/
def needBits (n : Nat) : Load Unit := do
  let s ← get
  if n > s.bitsLeft then throw (.underflow n s.bitsLeft)

/-- The next `n` bits. -/
def bits (n : Nat) : Load (List Bool) := do
  needBits n
  let s ← get
  set { s with bitPos := s.bitPos + n }
  return s.rest.take n

/-- A single bit. -/
def bit : Load Bool := do return (← bits 1) == [true]

/-- An unsigned number of at most 64 bits. -/
def u64 (width : Nat) : Load UInt64 :=
  if width > 64 then throw (.invalidWidth width)
  else do return UInt64.ofNat (Bits.toNat (← bits width))

/-- A signed number of at most 64 bits, in two's complement. -/
def i64 (width : Nat) : Load Int64 :=
  if width = 0 ∨ width > 64 then throw (.invalidWidth width)
  else do return Int64.ofInt (Bits.toInt (← bits width))

/-- An unsigned number of any width. -/
def uint (width : Nat) : Load Nat := do return Bits.toNat (← bits width)

/-- A signed number of any width, in two's complement. -/
def int (width : Nat) : Load Int :=
  if width = 0 then throw (.invalidWidth width)
  else do return Bits.toInt (← bits width)

/-- A number behind its length in bytes, which is below the bound. -/
def varUInt (bound : Nat) : Load Nat :=
  if bound = 0 then throw (.invalidWidth bound)
  else atomic do
    let length := (← u64 (Store.headerBits bound)).toNat
    if length ≥ bound then throw (.varUIntOverflow length bound)
    else uint (Store.wordBits (length * 8))

/-- The workchain and the hash of an address. -/
def addressBody : Load Address := do
  needBits (Address.bitLength - 3)
  let workchain ← i64 8
  let hash ← bits 256
  match Address.ofHash? workchain.toInt8 (Bits.pack hash) with
  | some a => return a
  | none => throw .invalidAddress

/-- An address, or the mark that there is none. -/
def address : Load (Option Address) := atomic do
  match (← bits 2) with
  | [false, false] => return none
  | [true, false] =>
    if (← bit) then throw .invalidAddress
    else return some (← addressBody)
  | _ => throw .invalidAddress

/-- An address that has to be there. -/
def standardAddress : Load Address := atomic do
  match (← address) with
  | some a => return a
  | none => throw .invalidAddress

/-- A reference. -/
def ref : Load Cell := do
  let s ← get
  match s.cell.ref? s.refPos with
  | some c =>
    set { s with refPos := s.refPos + 1 }
    return c
  | none => throw .refUnderflow

/-- A bit that tells whether there is a reference, and the reference. -/
def maybeRef : Load (Option Cell) := do
  needBits 1
  let s ← get
  if s.cell.bit? s.bitPos = some true ∧ s.refsLeft = 0 then throw .refUnderflow
  else if (← bit) then return some (← ref)
  else return none

/-- A text: all bits that are left, and the chain behind the next reference if the cell has no room
for another byte. -/
def text : Load String := do
  let s ← get
  if s.bitsLeft % 8 ≠ 0 then throw .notByteAligned
  else
    let isFull := s.cell.bits.length + 8 > Cell.maxBits
    let chain : Option (Option (List UInt8)) :=
      if isFull ∧ s.refsLeft > 0 then (s.cell.ref? s.refPos).map Cell.snakeBytes? else none
    match chain with
    | some none => throw .notByteAligned
    | _ =>
      let inline := Bits.pack s.rest
      let (bytes, refs) :=
        match chain with
        | some (some more) => (inline ++ more, 1)
        | _ => (inline, 0)
      set { s with bitPos := s.bitPos + s.bitsLeft, refPos := s.refPos + refs }
      match textOfBytes? bytes with
      | some t => return t
      | none => throw .invalidUtf8

end Load

namespace Address

/-- The address at the start of a cell, which may be the mark that there is none. -/
def ofCell (c : Cell) : Except Fault (Option Address) :=
  match Load.address c.slice with
  | .ok a _ => .ok a
  | .error _ _ => .error .notStandard

end Address

end ContractAbi
