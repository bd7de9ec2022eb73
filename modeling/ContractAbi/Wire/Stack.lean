import ContractAbi.Address.Friendly
import ContractAbi.Cell.Slice
import ContractAbi.Wire.Value

/-!
# Reading stacks

The result of a get-method is read from front to back. A read takes an entry off the stack even if
it then finds that the entry is of the wrong kind; only on an empty stack does it take nothing.
-/

namespace ContractAbi

/-- Why a stack cannot be read. The positions count all entries from the first one on. -/
inductive StackError where
  | underflow (position : Nat) (expected : Expectation)
  | typeMismatch (position : Nat) (expected : Expectation) (found : WireKind)
  | outOfRange (position : Nat) (target : Expectation)
  | malformed (position : Nat) (reason : String)
  deriving DecidableEq

/-- What is reported for an error. -/
def StackError.message : StackError → String
  | .underflow position expected =>
    "result stack ended at position " ++ toString position ++ ", expected " ++ expected.describe
  | .typeMismatch position expected found =>
    "result item " ++ toString position ++ ": expected " ++ expected.describe ++ ", found " ++
      found.describe
  | .outOfRange position target =>
    "result item " ++ toString position ++ ": integer does not fit in " ++ target.describe
  | .malformed position reason => "result item " ++ toString position ++ ": " ++ reason

/-- The entries that are left, and how many have been taken. -/
structure Stack where
  items : List WireValue
  position : Nat
  deriving Inhabited

/-- A step of reading. -/
abbrev Read := EStateM StackError Stack

namespace Stack

/-- The stack with these entries. -/
def ofList (items : List WireValue) : Stack := ⟨items, 0⟩

/-- How many entries are left. -/
def remaining (s : Stack) : Nat := s.items.length

end Stack

namespace Read

/-- Takes the next entry, with its position. -/
def next (expected : Expectation) : Read (Nat × WireValue) := fun s =>
  match s.items with
  | [] => .error (.underflow s.position expected) s
  | item :: rest => .ok (s.position, item) ⟨rest, s.position + 1⟩

/-- Fails at an entry of the wrong kind. -/
def mismatch {α : Type} (position : Nat) (expected : Expectation) (found : WireValue) : Read α :=
  throw (.typeMismatch position expected found.kind)

/-- Any entry. -/
def any : Read WireValue := do return (← next .anyValue).2

/-- A number with its position. The truth values are -1 and 0. -/
def numbered : Read (Nat × Int) := do
  match ← next .int with
  | (p, .int v) => return (p, v)
  | (p, .bool b) => return (p, if b then -1 else 0)
  | (p, other) => mismatch p .int other

/-- A number. -/
def int : Read Int := do return (← numbered).2

/-- A number that is not negative. -/
def natural : Read Nat := do
  let (p, v) ← numbered
  if 0 ≤ v then return v.toNat else throw (.outOfRange p .unsignedInteger)

/-- An unsigned number of 64 bits. -/
def u64 : Read UInt64 := do
  let (p, v) ← numbered
  if 0 ≤ v ∧ v < Bits.limit 64 then return UInt64.ofNat v.toNat else throw (.outOfRange p .u64)

/-- A signed number of 64 bits. -/
def i64 : Read Int64 := do
  let (p, v) ← numbered
  if Store.fitsSigned v 64 then return Int64.ofInt v else throw (.outOfRange p .i64)

/-- A truth value. Every number but zero is true. -/
def bool : Read Bool := do
  match ← next .bool with
  | (_, .bool b) => return b
  | (_, .int v) => return decide (v ≠ 0)
  | (p, other) => mismatch p .bool other

/-- An address, or none where the entry is null or says that there is none. -/
def address : Read (Option Address) := do
  match ← next .address with
  | (_, .null) => return none
  | (_, .address a) => return some a
  | (p, .slice c) | (p, .cell c) =>
    match Address.ofCell c with
    | .ok a => return a
    | .error e => throw (.malformed p e.message)
  | (p, .text s) =>
    match Address.parse s with
    | .ok a => return some a
    | .error e => throw (.malformed p e.message)
  | (p, other) => mismatch p .address other

/-- A text, which may also be a chain of cells. -/
def text : Read String := do
  match ← next .text with
  | (_, .text s) => return s
  | (p, .slice c) | (p, .cell c) =>
    match c.snakeBytes? with
    | none => throw (.malformed p "text cell is not byte-aligned")
    | some bytes =>
      match textOfBytes? bytes with
      | some s => return s
      | none => throw (.malformed p "text is not valid UTF-8")
  | (p, other) => mismatch p .text other

/-- A cell. -/
def cell : Read Cell := do
  match ← next .cell with
  | (_, .cell c) | (_, .slice c) => return c
  | (p, other) => mismatch p .cell other

/-- A cell, or none where the entry is null. -/
def cellOrNull : Read (Option Cell) := do
  match ← next .cellOrNull with
  | (_, .null) => return none
  | (_, .cell c) | (_, .slice c) => return some c
  | (p, other) => mismatch p .cellOrNull other

/-- An entry of a category, in the one form that values of the category have. -/
def category : Category → Read WireValue
  | .integer bits signed => do
    let (p, v) ← numbered
    if fits v bits signed then return .int v else throw (.outOfRange p (.integerOf signed))
  | .varUInt _ => toWire <$> natural
  | .boolean => toWire <$> bool
  | .address => toWire <$> address
  | .text => toWire <$> text
  | .cell | .slice | .builder => toWire <$> cell
  | .optional _ => toWire <$> cellOrNull
  | .either _ _ | .unknown _ => any

end Read

end ContractAbi
