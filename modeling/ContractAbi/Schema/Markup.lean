import ContractAbi.Schema.Warning
import ContractAbi.Xml.Document

/-!
# Descriptions in XML

The children of the root element are the records: `interface`, `get_method` and `internal`. Other
elements are skipped. A record is never refused: a missing name is empty, and a message whose text
is no definition is kept as malformed.
-/

namespace ContractAbi

open Text

/-- Why a text is no description at all. -/
inductive SchemaError where
  | empty
  | malformedXml
  | malformedJson
  deriving DecidableEq

/-- What is reported for an error. -/
def SchemaError.message : SchemaError → String
  | .empty => "schema text is empty"
  | .malformedXml => "schema is not well-formed XML"
  | .malformedJson => "schema JSON is invalid"

namespace Schema

/-- All text in an element, without the blanks around it. -/
def textOf (n : Xml.Node) : String := String.ofList (trim n.content)

/-- The name that an element declares. -/
def nameOf (n : Xml.Node) : String := (n.attribute? "name").getD ""

/-- The child elements with this name, in order. -/
def sections (name : String) (n : Xml.Node) : List Xml.Node :=
  n.elements.filter fun c => c.elementName? == some name

/-- The text, unless it is empty. -/
def present? (text : String) : Option String := if text = "" then none else some text

/-- The names of the messages that the sections `name` of an interface refer to. -/
def messageRefs (name : String) (n : Xml.Node) : List String :=
  (sections name n).flatMap fun s => (sections "internal" s).filterMap (·.attribute? "name")

/-- The interface that an element declares. Of several code hashes the last one counts. -/
def interfaceOf (n : Xml.Node) : Interface where
  name := nameOf n
  parent := (n.attribute? "inherits").filter fun p => !isAllBlank p
  fingerprint := ((sections "code_hash" n).getLast?.map textOf).bind present?
  getMethods := (sections "get_method" n).filterMap (·.attribute? "name")
  inbound := messageRefs "msg_in" n
  outbound := messageRefs "msg_out" n

/-- The parameter that an element declares; the element's own name is its tag. -/
def parameterOf (n : Xml.Node) : Parameter := ⟨n.elementName?, nameOf n, textOf n⟩

/-- The parameters in the sections `name` of a get-method. -/
def parametersOf (name : String) (n : Xml.Node) : List Parameter :=
  (sections name n).flatMap fun s => s.elements.map parameterOf

/-- The get-method that an element declares. -/
def getMethodOf (n : Xml.Node) : GetMethod :=
  ⟨nameOf n, parametersOf "input" n, parametersOf "output" n⟩

/-- What the text of a message stands for. -/
def bodyOf (text : String) : MessageBody :=
  match Definition.parse text with
  | .ok d => .parsed d
  | .error fault => .malformed text fault.message

/-- The message that an element declares. -/
def messageOf (n : Xml.Node) : Message := ⟨nameOf n, bodyOf (textOf n)⟩

/-- The record that an element declares. -/
def recordOf? (n : Xml.Node) : Option Record :=
  match n.elementName? with
  | some "interface" => some (.interface (interfaceOf n))
  | some "get_method" => some (.getMethod (getMethodOf n))
  | some "internal" => some (.message (messageOf n))
  | _ => none

/-- The records of a description, in order. -/
def recordsOf (root : Xml.Node) : List Record := root.elements.filterMap recordOf?

/-- The document of a description, and the warnings on its records in the order of the records. -/
def parse (text : String) : Except SchemaError (Document × List Warning) :=
  if isAllBlank text then .error .empty
  else
    match Xml.parse text with
    | none => .error .malformedXml
    | some root =>
      let records := recordsOf root
      .ok (Document.ofRecords records, Record.allWarnings [] records)

end Schema

end ContractAbi
