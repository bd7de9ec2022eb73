import ContractAbi.Binding.Class
import ContractAbi.Binding.Imports
import ContractAbi.Naming.Namer
import ContractAbi.Schema.Document

/-!
# Data types of messages

Every message with a definition gets a data type. A message whose definition says the same as the
first one of that name shares its data type; one that says something else is named after the
message instead.
-/

namespace ContractAbi.Binding

open Naming (identifier typeName)

/-- The fields for parameters, under distinct identifiers. -/
def fieldsOf (category : Parameter → Category) (params : List Parameter) : List Field :=
  let idents := ((Namer.claimAll (params.map fun p => identifier p.name)).run ⟨[]⟩).1
  List.zipWith (fun p ident => ⟨p.name, ident, category p⟩) params idents

/-- The fields of a message body. The tag of a parameter does not count here. -/
def bodyFields (d : Definition) : List Field :=
  fieldsOf (fun p => Category.ofText p.rawType) d.params

/-- The data types so far, and which of them belongs to each message. -/
structure MessageTable where
  dataTypes : List DataType
  entries : List (String × DataType)
  namer : Namer
  deriving DecidableEq

namespace MessageTable

/-- The table without messages. -/
def empty : MessageTable := ⟨[], [], .reserving (takenTypeNames messageImports)⟩

/-- The data type of a message. -/
def lookup (t : MessageTable) (message : String) : Option DataType :=
  (t.entries.find? (·.1 == message)).map (·.2)

/-- The first data type of a definition name. -/
def ofDefinition? (t : MessageTable) (name : String) : Option DataType :=
  t.dataTypes.find? (·.definitionName == name)

/-- Adds a data type for a message. -/
def create (t : MessageTable) (message base : String) (d : Definition) : MessageTable :=
  let (name, namer) := (Namer.claim (typeName base)).run t.namer
  let type : DataType := ⟨name, d.name, d.opcode, bodyFields d, d.returnType⟩
  ⟨t.dataTypes ++ [type], t.entries ++ [(message, type)], namer⟩

/-- Adds a message, unless it is malformed or one of its name is there. -/
def add (t : MessageTable) (m : Message) : MessageTable :=
  match t.lookup m.name, m.definition? with
  | none, some d =>
    match t.ofDefinition? d.name with
    | some type =>
      if type.opcode.same d.opcode ∧ type.fields = bodyFields d then
        { t with entries := t.entries ++ [(m.name, type)] }
      else t.create m.name m.name d
    | none => t.create m.name d.name d
  | _, _ => t

/-- The table of all messages. -/
def ofMessages (messages : List Message) : MessageTable := messages.foldl add empty

end MessageTable

end ContractAbi.Binding
