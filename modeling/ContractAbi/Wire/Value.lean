import ContractAbi.Address.Basic
import ContractAbi.Cell.Basic
import ContractAbi.Binding.Value

/-!
# Wire values

The entries of the stack of a get-method: its arguments and its results. `ToWire` gives the wire
form of plain values.
-/

namespace ContractAbi

/-- An entry of a stack. -/
inductive WireValue where
  | null
  | int (v : Int)
  | bool (b : Bool)
  | address (a : Address)
  | cell (c : Cell)
  | slice (c : Cell)
  | text (s : String)
  /-- Bytes of no known kind. -/
  | bytes (data : List UInt8)
  | tuple (items : List WireValue)
  deriving Inhabited

/-- What kind of entry a wire value is. -/
inductive WireKind where
  | null
  | int
  | bool
  | address
  | cell
  | slice
  | text
  | bytes
  | tuple
  deriving DecidableEq

/-- The name of a kind. -/
def WireKind.describe : WireKind → String
  | .null => "null"
  | .int => "int"
  | .bool => "bool"
  | .address => "address"
  | .cell => "cell"
  | .slice => "slice"
  | .text => "text"
  | .bytes => "opaque"
  | .tuple => "tuple"

/-- What kind of value is wanted where another one was found. -/
inductive Expectation where
  | anyValue
  | int
  | integer
  | unsignedInteger
  | signedInteger
  | u64
  | i64
  | bool
  | address
  | addressOrNull
  | text
  | cell
  | cellOrNull
  deriving DecidableEq

/-- An expectation in words. -/
def Expectation.describe : Expectation → String
  | .anyValue => "any value"
  | .int => "int"
  | .integer => "integer"
  | .unsignedInteger => "unsigned integer"
  | .signedInteger => "signed integer"
  | .u64 => "u64"
  | .i64 => "i64"
  | .bool => "bool"
  | .address => "address"
  | .addressOrNull => "address or null"
  | .text => "text"
  | .cell => "cell"
  | .cellOrNull => "cell or null"

/-- The integers of a signedness. -/
def Expectation.integerOf (signed : Bool) : Expectation :=
  if signed then .signedInteger else .unsignedInteger

/-- Whether a number has a form of so many bits, in two's complement if it is signed. -/
def fits (v : Int) (bits : Nat) (signed : Bool) : Bool :=
  match signed, v with
  | false, .ofNat n => decide (Bits.size n ≤ bits)
  | false, .negSucc _ => false
  | true, .ofNat n => decide (Bits.size n < bits)
  | true, .negSucc n => decide (Bits.size n < bits)

namespace WireValue

/-- What kind of entry it is. -/
def kind : WireValue → WireKind
  | .null => .null
  | .int _ => .int
  | .bool _ => .bool
  | .address _ => .address
  | .cell _ => .cell
  | .slice _ => .slice
  | .text _ => .text
  | .bytes _ => .bytes
  | .tuple _ => .tuple

/-- Whether it is the null entry. -/
def isNull : WireValue → Bool
  | .null => true
  | _ => false

end WireValue

/-- Types whose values have a wire form. -/
class ToWire (α : Type) where
  toWire : α → WireValue

export ToWire (toWire)

instance : ToWire Int := ⟨.int⟩
instance : ToWire Nat := ⟨fun n => .int n⟩
instance : ToWire UInt8 := ⟨fun n => .int n.toNat⟩
instance : ToWire UInt16 := ⟨fun n => .int n.toNat⟩
instance : ToWire UInt32 := ⟨fun n => .int n.toNat⟩
instance : ToWire UInt64 := ⟨fun n => .int n.toNat⟩
instance : ToWire Int8 := ⟨fun n => .int n.toInt⟩
instance : ToWire Int16 := ⟨fun n => .int n.toInt⟩
instance : ToWire Int32 := ⟨fun n => .int n.toInt⟩
instance : ToWire Int64 := ⟨fun n => .int n.toInt⟩
instance : ToWire Bool := ⟨.bool⟩
instance : ToWire Address := ⟨.address⟩
instance : ToWire Cell := ⟨.cell⟩
instance : ToWire String := ⟨.text⟩
instance : ToWire WireValue := ⟨id⟩

/-- An absent value is the null entry. -/
instance {α : Type} [ToWire α] : ToWire (Option α) where
  toWire
    | some v => toWire v
    | none => .null

/-- The entry that a probe passes for a value that it makes up. -/
def DefaultValue.wireValue : DefaultValue → WireValue
  | .zero => .int 0
  | .false => .bool Bool.false
  | .emptyText => .text ""
  | .nullAddress | .absent | .null => .null
  | .zeroAddress => .address .zero
  | .emptyCell => .cell .empty

end ContractAbi
