import ContractAbi.Schema.Category

/-!
# What a category means for a binding

A binding meets a value in one of three positions: as an argument of a query, as one of its
results, or as a field of a message body. The category and the position together decide the type of
the value in generated code and the value that a probe makes up for it; the category alone decides
how a field is stored in a body.
-/

namespace ContractAbi

/-- Where a value appears. -/
inductive Position where
  | queryInput
  | queryOutput
  | messageField
  deriving DecidableEq

/-- The type of a value in generated code. -/
inductive HostType where
  | u64
  | i64
  | bigUint
  | bigInt
  | bool
  | address
  | optionalAddress
  | string
  | cell
  | optionalCell
  | wireValue
  deriving DecidableEq

/-- A type as generated code writes it. -/
def HostType.text : HostType → String
  | .u64 => "u64"
  | .i64 => "i64"
  | .bigUint => "BigUint"
  | .bigInt => "BigInt"
  | .bool => "bool"
  | .address => "Address"
  | .optionalAddress => "Option<Address>"
  | .string => "String"
  | .cell => "Cell"
  | .optionalCell => "Option<Cell>"
  | .wireValue => "WireValue"

/-- The value that a probe makes up. -/
inductive DefaultValue where
  | zero
  | false
  | emptyText
  /-- No address, on the stack of a query. -/
  | nullAddress
  /-- The address of zeros, in a message body. -/
  | zeroAddress
  | emptyCell
  /-- No cell where one is optional. -/
  | absent
  | null
  deriving DecidableEq

/-- The name of a default value. -/
def DefaultValue.tag : DefaultValue → String
  | .zero => "zero"
  | .false => "false"
  | .emptyText => "empty_text"
  | .nullAddress => "null_address"
  | .zeroAddress => "zero_address"
  | .emptyCell => "empty_cell"
  | .absent => "absent"
  | .null => "null"

/-- How a field is stored in a message body. -/
inductive StoreOp where
  | uint (bits : Nat)
  | int (bits : Nat)
  | bit
  | address
  /-- A bit that tells whether a reference follows. -/
  | maybeRef
  /-- A length in bytes below the bound, then so many bytes. -/
  | varUInt (bound : Nat)
  | text
  /-- A reference; so is everything stored that has no form of its own. -/
  | ref
  deriving DecidableEq

namespace Category

/-- The widest integer that has a type of its own in generated code. -/
def nativeBits : Nat := 64

/-- The type of a value in generated code. -/
def hostType (c : Category) (p : Position) : HostType :=
  match c with
  | .integer bits signed =>
    if bits ≤ nativeBits then (if signed then .i64 else .u64)
    else if signed then .bigInt else .bigUint
  | .varUInt _ => .bigUint
  | .boolean => .bool
  | .address => if p = .messageField then .address else .optionalAddress
  | .text => .string
  | .cell | .slice | .builder => .cell
  | .optional _ => .optionalCell
  | .either _ _ | .unknown _ => if p = .messageField then .cell else .wireValue

/-- The value that a probe makes up. -/
def defaultValue (c : Category) (p : Position) : DefaultValue :=
  match c with
  | .integer _ _ | .varUInt _ => .zero
  | .boolean => .false
  | .text => .emptyText
  | .address => if p = .messageField then .zeroAddress else .nullAddress
  | .optional _ => .absent
  | .cell | .slice | .builder | .either _ _ => .emptyCell
  | .unknown _ => if p = .messageField then .emptyCell else .null

/-- How a field of the category is stored. -/
def storeOp : Category → StoreOp
  | .integer bits false => .uint bits
  | .integer bits true => .int bits
  | .boolean => .bit
  | .address => .address
  | .optional _ => .maybeRef
  | .varUInt bound => .varUInt bound
  | .text => .text
  | .cell | .slice | .builder | .either _ _ | .unknown _ => .ref

end Category

end ContractAbi
