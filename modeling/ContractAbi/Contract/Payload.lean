import ContractAbi.Binding.Class
import ContractAbi.Cell.Builder
import ContractAbi.Contract.Error

/-!
# Arguments and payloads

Which wire values a get-method takes as arguments, and how the fields of a message body are stored
from wire values.
-/

namespace ContractAbi

/-- What is expected of an argument of a category, if the value is not one. Where several forms or
none are declared every value will do. -/
def Category.inputFault? : Category → WireValue → Option Expectation
  | .integer bits signed, .int v => if fits v bits signed then none else some (.integerOf signed)
  | .integer _ signed, _ => some (.integerOf signed)
  | .varUInt _, .int v => if 0 ≤ v then none else some .unsignedInteger
  | .varUInt _, _ => some .unsignedInteger
  | .boolean, .bool _ | .boolean, .int _ => none
  | .boolean, _ => some .bool
  | .address, .address _ | .address, .null | .address, .slice _ => none
  | .address, _ => some .addressOrNull
  | .text, .text _ | .text, .cell _ | .text, .slice _ => none
  | .text, _ => some .text
  | .optional _, .cell _ | .optional _, .slice _ | .optional _, .null => none
  | .optional _, _ => some .cellOrNull
  | .either _ _, _ | .unknown _, _ => none
  | _, .cell _ | _, .slice _ => none
  | _, _ => some .cell

namespace StoreOp

/-- The values that the operation stores. -/
def expectation : StoreOp → Expectation
  | .uint _ | .varUInt _ => .unsignedInteger
  | .int _ => .integer
  | .bit => .bool
  | .address => .address
  | .maybeRef => .cellOrNull
  | .text => .text
  | .ref => .cell

/-- How the operation stores a value, if it is of a kind that it stores. An address may also be
given as text. -/
def store? : StoreOp → WireValue → Option Store
  | .uint bits, .int v => if 0 ≤ v then some (Store.uint v.toNat bits) else none
  | .int bits, .int v => some (Store.int v bits)
  | .varUInt bound, .int v => if 0 ≤ v then some (Store.varUInt v.toNat bound) else none
  | .bit, .bool b => some (Store.bit b)
  | .address, .address a => some (Store.address (some a))
  | .address, .null => some (Store.address none)
  | .address, .text s =>
    match Address.parse s with
    | .ok a => some (Store.address (some a))
    | .error _ => none
  | .maybeRef, .null => some (Store.maybeRef none)
  | .maybeRef, .cell c | .maybeRef, .slice c => some (Store.maybeRef (some c))
  | .text, .text s => some (Store.text s)
  | .ref, .cell c | .ref, .slice c => some (Store.ref c)
  | _, _ => none

end StoreOp

namespace Binding

/-- Stores one field. -/
def Field.store (message : String) (f : Field) (arg : WireValue) (b : Builder) :
    Except BindingError Builder :=
  match f.storeOp.store? arg with
  | none => .error (.argument message f.name f.storeOp.expectation arg.kind)
  | some store =>
    match store b with
    | .ok _ b => .ok b
    | .error e _ => .error (.payload message e)

/-- Stores fields in order. -/
def storeFields (message : String) :
    List (Field × WireValue) → Builder → Except BindingError Builder
  | [], b => .ok b
  | (f, arg) :: rest, b => do storeFields message rest (← f.store message arg b)

/-- The body of a message: the opcode, then every field in order. -/
def Send.payload (s : Send) (args : List WireValue) : Except BindingError Cell := do
  if args.length ≠ s.body.fields.length then
    throw (.arity s.message s.body.fields.length args.length)
  let opcode := Store.u64 (UInt64.ofNat s.body.opcode.value) s.body.opcode.bitWidth
  match opcode Builder.empty with
  | .error e _ => throw (.payload s.message e)
  | .ok _ b => return (← storeFields s.message (s.body.fields.zip args) b).build

end Binding

end ContractAbi
