import ContractAbi.Schema.Category

/-!
# Schema documents

What one interface description declares: interfaces, get-methods and messages, each list in
declaration order. Interfaces refer to get-methods and messages by name, and nothing here says that
such a name is declared. Where two records of one list share a name, looking the name up finds the
first.
-/

namespace ContractAbi

/-- A named set of get-methods and messages. It may extend one other interface. -/
structure Interface where
  name : String
  parent : Option String
  /-- The hash of the contract's code, carried along as written. -/
  fingerprint : Option String
  getMethods : List String
  inbound : List String
  outbound : List String
  deriving DecidableEq

/-- A read-only method with positional inputs and outputs. -/
structure GetMethod where
  name : String
  inputs : List Parameter
  outputs : List Parameter
  deriving DecidableEq

/-- The text of a message record: a definition, or the text itself and why it is none. -/
inductive MessageBody where
  | parsed (definition : Definition)
  | malformed (text reason : String)
  deriving DecidableEq

/-- A message under the name it was declared with. -/
structure Message where
  name : String
  body : MessageBody
  deriving DecidableEq

namespace Message

/-- The definition, if the text was one. -/
def definition? (m : Message) : Option Definition :=
  match m.body with
  | .parsed d => some d
  | .malformed _ _ => none

/-- Whether the text was no definition. -/
def isMalformed (m : Message) : Bool := m.definition?.isNone

end Message

/-- Everything that one description declares. -/
structure Document where
  interfaces : List Interface
  getMethods : List GetMethod
  messages : List Message
  deriving DecidableEq

namespace Document

/-- The document of an empty description. -/
def empty : Document := ⟨[], [], []⟩

/-- The first interface with the name. -/
def interface? (doc : Document) (name : String) : Option Interface :=
  doc.interfaces.find? (·.name == name)

/-- The first get-method with the name. -/
def getMethod? (doc : Document) (name : String) : Option GetMethod :=
  doc.getMethods.find? (·.name == name)

/-- The first message with the name, malformed or not. -/
def message? (doc : Document) (name : String) : Option Message :=
  doc.messages.find? (·.name == name)

/-- The definition of the first message with the name; nothing if that message is malformed. -/
def definition? (doc : Document) (name : String) : Option Definition :=
  (doc.message? name).bind Message.definition?

/-- The interface names in declaration order. -/
def interfaceNames (doc : Document) : List String := doc.interfaces.map (·.name)

/-- The names of the messages with a definition, in declaration order. -/
def definedMessages (doc : Document) : List String :=
  (doc.messages.filter fun m => !m.isMalformed).map (·.name)

end Document

end ContractAbi
