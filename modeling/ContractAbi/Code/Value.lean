import ContractAbi.Binding.Class

/-!
# Expressions for values

The pieces of generated code that depend on the category of a value: how a query reads it from the
stack, how a body loads and stores it, and the expression for the value that a probe makes up.
-/

namespace ContractAbi.Code

open Binding (Field)

/-- The method of the stack that reads a result. -/
def readerMethod : Category → String
  | .integer bits signed =>
    if bits ≤ Category.nativeBits then (if signed then "read_i64" else "read_u64")
    else if signed then "read_int" else "read_biguint"
  | .varUInt _ => "read_biguint"
  | .boolean => "read_bool"
  | .address => "read_address_opt"
  | .text => "read_text"
  | .cell | .slice | .builder => "read_cell"
  | .optional _ => "read_cell_opt"
  | .either _ _ | .unknown _ => "read_any"

/-- The expression for the value that a probe makes up. -/
def defaultExpression (f : Field) (p : Position) : String :=
  match f.defaultValue p with
  | .zero =>
    match f.hostType p with
    | .u64 | .i64 => "0"
    | other => other.text ++ "::default()"
  | .false => "false"
  | .emptyText => "String::new()"
  | .nullAddress | .absent => "None"
  | .zeroAddress => "Address::zero()"
  | .emptyCell =>
    if f.hostType p = .wireValue then "WireValue::Cell(Cell::empty())" else "Cell::empty()"
  | .null => "WireValue::Null"

/-- The call that loads a field. -/
def loadCall (f : Field) : String :=
  match f.storeOp with
  | .uint bits =>
    if bits ≤ Category.nativeBits then "slice.load_u64(" ++ toString bits ++ ")"
    else "slice.load_uint(" ++ toString bits ++ ")"
  | .int bits =>
    if bits ≤ Category.nativeBits then "slice.load_i64(" ++ toString bits ++ ")"
    else "slice.load_int(" ++ toString bits ++ ")"
  | .bit => "slice.load_bit()"
  | .address => "slice.load_std_address()"
  | .maybeRef => "slice.load_maybe_ref()"
  | .varUInt bound => "slice.load_var_uint(" ++ toString bound ++ ")"
  | .text => "slice.load_text()"
  | .ref => "slice.load_ref()"

/-- The call that stores a field. -/
def storeCall (f : Field) : String :=
  match f.storeOp with
  | .uint bits =>
    if bits ≤ Category.nativeBits then
      "builder.store_u64(self." ++ f.ident ++ ", " ++ toString bits ++ ")"
    else "builder.store_uint(&self." ++ f.ident ++ ", " ++ toString bits ++ ")"
  | .int bits =>
    if bits ≤ Category.nativeBits then
      "builder.store_i64(self." ++ f.ident ++ ", " ++ toString bits ++ ")"
    else "builder.store_int(&self." ++ f.ident ++ ", " ++ toString bits ++ ")"
  | .bit => "builder.store_bit(self." ++ f.ident ++ ")"
  | .address => "builder.store_address(Some(&self." ++ f.ident ++ "))"
  | .maybeRef => "builder.store_maybe_ref(self." ++ f.ident ++ ".as_ref())"
  | .varUInt bound => "builder.store_var_uint(&self." ++ f.ident ++ ", " ++ toString bound ++ ")"
  | .text => "builder.store_text(&self." ++ f.ident ++ ")"
  | .ref => "builder.store_ref(&self." ++ f.ident ++ ")"

/-- The declarations of fields as members of a type. -/
def memberLines (fields : List Field) (p : Position) : List String :=
  fields.map fun f => "pub " ++ f.ident ++ ": " ++ (f.hostType p).text ++ ","

/-- The declarations of fields as further parameters of a function. -/
def parameters (fields : List Field) (p : Position) : String :=
  String.join (fields.map fun f => ", " ++ f.ident ++ ": " ++ (f.hostType p).text)

/-- The names of fields as arguments. -/
def arguments (fields : List Field) : String := ", ".intercalate (fields.map (·.ident))

/-- The values that a probe makes up, as arguments. -/
def defaultArguments (fields : List Field) (p : Position) : String :=
  ", ".intercalate (fields.map fun f => defaultExpression f p)

end ContractAbi.Code
