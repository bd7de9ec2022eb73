import ContractAbi.Code.Header
import ContractAbi.Code.Value
import ContractAbi.Text.Ascii

/-!
# The file of message bodies

One type for each data type, with functions that store it as a cell and load it from one.
-/

namespace ContractAbi.Code

open Binding (DataType)

/-- The declaration of the type of a body. -/
def bodyType (d : DataType) : List Line :=
  if d.fields.isEmpty then [.text ("pub struct " ++ d.typeName ++ " \x7b\x7d")]
  else block ("pub struct " ++ d.typeName) (texts (memberLines d.fields .messageField)) ""

/-- The function that writes a body into a builder. -/
def storeFunction (d : DataType) : List Line :=
  .text "/// Write the opcode and every field, in declaration order." ::
    block "pub fn store(&self, builder: &mut CellBuilder) -> Result<(), CellError>"
      (texts (("builder.store_u64(Self::OPCODE, " ++ toString d.opcode.bitWidth ++ ")?;") ::
        d.fields.map (fun f => storeCall f ++ "?;") ++ ["Ok(())"])) ""

/-- The function that makes a cell of a body. -/
def toCellFunction : List Line :=
  block "pub fn to_cell(&self) -> Result<Cell, CellError>"
    (texts ["let mut builder = CellBuilder::new();", "self.store(&mut builder)?;",
      "Ok(builder.build())"]) ""

/-- The function that reads a body from a slice. -/
def loadFunction (d : DataType) : List Line :=
  let result :=
    if d.fields.isEmpty then [.text "Ok(Self \x7b\x7d)"]
    else
      block "Ok(Self" (texts (d.fields.map fun f => f.ident ++ ": " ++ loadCall f ++ "?,")) ")"
  .text "/// Read a body written by [`Self::store`]. Fails on a different opcode." ::
    block "pub fn load(slice: &mut CellSlice<'_>) -> Result<Self, CellError>"
      (.text ("let opcode = slice.load_u64(" ++ toString d.opcode.bitWidth ++ ")?;") ::
        block "if opcode != Self::OPCODE"
          [.text ("return Err(CellError::OpcodeMismatch " ++
            "\x7b expected: Self::OPCODE, found: opcode \x7d);")]
          "" ++
        result) ""

/-- The function that reads a body from a cell. -/
def fromCellFunction : List Line :=
  block "pub fn from_cell(cell: &Cell) -> Result<Self, CellError>"
    [.text "Self::load(&mut cell.parse())"] ""

/-- The code of a data type. -/
def dataTypeCode (d : DataType) : List Line :=
  texts ["/// `" ++ d.definitionName ++ "#" ++ d.opcode.digits ++ "`, returns `" ++
      d.returnType ++ "`.",
    "#[derive(Debug, Clone, PartialEq)]"] ++
    bodyType d ++ [blank] ++
    block ("impl " ++ d.typeName)
      (.text ("pub const OPCODE: u64 = 0x" ++ Text.lowerCase d.opcode.digits ++ ";") ::
        spaced [storeFunction d, toCellFunction, loadFunction d, fromCellFunction]) ""

/-- The code of the file of message bodies. -/
def messagesCode (types : List DataType) : List Line :=
  fileHeader "Internal message bodies." ++
    [blank, .text "#![allow(unused_imports, non_camel_case_types)]", blank] ++
    importLines Binding.messageImports ++ spaced (types.map dataTypeCode)

end ContractAbi.Code
