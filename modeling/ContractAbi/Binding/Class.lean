import ContractAbi.Binding.Value
import ContractAbi.Schema.Warning

/-!
# Binding models

What is generated for a description: one class for each interface, with a query for each get-method
and a send for each inbound message, and one data type for each message body. A model holds the
names and types that generated code uses. The same model can also be carried out directly, so that
generated code and direct use agree on the order of values, the layout of bodies and the values
that probes make up.
-/

namespace ContractAbi.Binding

/-- A value at one place of a list: an argument, a result or a field of a body. -/
structure Field where
  name : String
  /-- The name in generated code. -/
  ident : String
  category : Category
  deriving DecidableEq

namespace Field

/-- The type of the value in generated code. -/
def hostType (f : Field) (p : Position) : HostType := f.category.hostType p

/-- The value that a probe makes up. -/
def defaultValue (f : Field) (p : Position) : DefaultValue := f.category.defaultValue p

/-- How the value is stored in a body. -/
def storeOp (f : Field) : StoreOp := f.category.storeOp

end Field

/-- What a query gives back. -/
inductive Result where
  | unit
  | single (field : Field)
  /-- Two or more values, gathered in a type of their own. -/
  | record (typeName : String) (fields : List Field)
  deriving DecidableEq

/-- The values of a result in stack order. -/
def Result.fields : Result → List Field
  | .unit => []
  | .single f => [f]
  | .record _ fs => fs

/-- The call of a get-method. -/
structure Query where
  method : String
  ident : String
  probeIdent : String
  /-- The probe that takes arguments; there is one if the method has inputs. -/
  probeWithIdent : Option String
  inputs : List Field
  result : Result
  deriving DecidableEq

/-- The body of a message: its opcode, then its fields in order. -/
structure DataType where
  typeName : String
  definitionName : String
  opcode : Opcode
  fields : List Field
  returnType : String
  deriving DecidableEq

/-- The sending of an inbound message. -/
structure Send where
  message : String
  ident : String
  probeIdent : String
  body : DataType
  deriving DecidableEq

/-- What is generated for one interface. -/
structure Class where
  interface : String
  typeName : String
  moduleName : String
  fingerprint : Option String
  /-- The interface followed by its ancestors. -/
  lineage : List String
  queries : List Query
  sends : List Send
  /-- The messages that the contract may send out. -/
  outbound : List String
  deriving DecidableEq

namespace Class

/-- The query of a get-method. -/
def query? (c : Class) (method : String) : Option Query := c.queries.find? (·.method == method)

/-- The send of a message. -/
def send? (c : Class) (message : String) : Option Send := c.sends.find? (·.message == message)

/-- Nothing that could be probed. -/
def isEmpty (c : Class) : Bool := c.queries.isEmpty && c.sends.isEmpty

end Class

/-- What is generated for one description. -/
structure Model where
  /-- Parents before children. -/
  classes : List Class
  dataTypes : List DataType
  /-- The interfaces with children before parents. -/
  registration : List String
  warnings : List Warning
  deriving DecidableEq

namespace Model

/-- The class of an interface. -/
def class? (m : Model) (interface : String) : Option Class :=
  m.classes.find? (·.interface == interface)

/-- The data type of a type name. -/
def dataType? (m : Model) (typeName : String) : Option DataType :=
  m.dataTypes.find? (·.typeName == typeName)

end Model

end ContractAbi.Binding
