import ContractAbi.Cell.Builder

/-!
# Filling cells

A number is written bit by bit, from its highest place down. What a word holds comes out of it by
shifts and masks, and what a number of any width holds is asked place by place; either has its own
way to see whether the number fits. Every store of a number is filled in like this.
-/

namespace ContractAbi.Fill

open Store (fail needBits)

/-- Writes the bits at so many places, the lowest one last. -/
def pushPlaces (bit : Nat → Bool) : Nat → Store
  | 0 => pure ()
  | n + 1 => do
    Store.bit (bit n)
    pushPlaces bit n

/-- An unsigned number of at most 64 bits. A shift by all 64 would not move it. -/
def u64 (value : UInt64) (width : Nat) : Store :=
  if width > 64 then fail (.invalidWidth width)
  else if width < 64 ∧ value >>> UInt64.ofNat width ≠ 0 then fail (.valueOutOfRange width)
  else do
    needBits width
    pushPlaces (fun place => value >>> UInt64.ofNat place &&& 1 == 1) width

/-- A signed number of at most 64 bits: its lowest bits as an unsigned number. -/
def i64 (value : Int64) (width : Nat) : Store :=
  if width = 0 ∨ width > 64 then fail (.invalidWidth width)
  else if width = 64 then u64 (value.toUInt64 &&& 0xFFFFFFFFFFFFFFFF) width
  else
    let half : Int64 := 1 <<< Int64.ofNat (width - 1)
    if value < -half ∨ value ≥ half then fail (.valueOutOfRange width)
    else u64 (value.toUInt64 &&& (1 <<< UInt64.ofNat width - 1)) width

/-- An unsigned number of any width. -/
def uint (value width : Nat) : Store :=
  if Bits.size value > width then fail (.valueOutOfRange width)
  else do
    needBits width
    pushPlaces value.testBit width

/-- A signed number of any width: a negative one goes up by what the width cannot hold. -/
def int (value : Int) (width : Nat) : Store :=
  if width = 0 then fail (.invalidWidth width)
  else
    let half : Int := (1 <<< (width - 1) : Nat)
    if value < -half ∨ value ≥ half then fail (.valueOutOfRange width)
    else
      match (if value < 0 then value + (1 <<< width : Nat) else value).toNat? with
      | some unsigned => uint unsigned width
      | none => fail (.valueOutOfRange width)

end ContractAbi.Fill
