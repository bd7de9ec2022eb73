import ContractAbi.Json.Write
import ContractAbi.Json.Read
import ContractAbi.Schema.Warning

/-!
# Documents, categories and warnings as JSON

The JSON form of each type, and how it is read back. An absent optional value is an absent member.
A value with several forms names the form in a member of its own: `status` for the text of a
message, `kind` for a category (with its arguments in `of`), `warning` for a warning.
-/

namespace ContractAbi

open Json

namespace Opcode

/-- An opcode as a JSON string. -/
def toJson (op : Opcode) : Json := .string op.text

/-- Reads an opcode from a JSON string. -/
def ofJson? (v : Json) : Option Opcode := do
  match parse (← v.string?) with
  | .ok op => some op
  | .error _ => none

end Opcode

namespace Parameter

/-- A parameter as a JSON object. -/
def toJson (p : Parameter) : Json :=
  .object (optionalMember "category" p.category ++
    [("name", .string p.name), ("raw_type", .string p.rawType)])

/-- Reads a parameter. Its type may be missing. -/
def ofJson? (v : Json) : Option Parameter := do
  match ← v.members? ["category", "name", "raw_type"] with
  | [category, name, rawType] =>
    return ⟨← optional? none (nullable? string?) category, ← required? string? name,
      ← optional? "" string? rawType⟩
  | _ => none

end Parameter

namespace Definition

/-- The members of a definition. -/
def toFields (d : Definition) : List (String × Json) :=
  [("definition_name", .string d.name), ("opcode", d.opcode.toJson),
    ("params", .array (d.params.map Parameter.toJson)), ("return_type", .string d.returnType)]

/-- A definition as a JSON object. -/
def toJson (d : Definition) : Json := .object d.toFields

/-- Reads a definition. -/
def ofJson? (v : Json) : Option Definition := do
  match ← v.members? ["definition_name", "opcode", "params", "return_type"] with
  | [name, opcode, params, returnType] =>
    return ⟨← required? string? name, ← required? Opcode.ofJson? opcode,
      ← required? (list? Parameter.ofJson?) params, ← required? string? returnType⟩
  | _ => none

end Definition

namespace Interface

/-- An interface as a JSON object. -/
def toJson (i : Interface) : Json :=
  .object ([("name", .string i.name)] ++ optionalMember "parent" i.parent ++
    optionalMember "fingerprint" i.fingerprint ++
    [("get_method_refs", strings i.getMethods), ("inbound_message_refs", strings i.inbound),
      ("outbound_message_refs", strings i.outbound)])

/-- Reads an interface. Everything but its name may be missing. -/
def ofJson? (v : Json) : Option Interface := do
  match ← v.members? ["name", "parent", "fingerprint", "get_method_refs", "inbound_message_refs",
      "outbound_message_refs"] with
  | [name, parent, fingerprint, getMethods, inbound, outbound] =>
    return ⟨← required? string? name, ← optional? none (nullable? string?) parent,
      ← optional? none (nullable? string?) fingerprint, ← optional? [] (list? string?) getMethods,
      ← optional? [] (list? string?) inbound, ← optional? [] (list? string?) outbound⟩
  | _ => none

end Interface

namespace GetMethod

/-- A get-method as a JSON object. -/
def toJson (g : GetMethod) : Json :=
  .object [("name", .string g.name), ("inputs", .array (g.inputs.map Parameter.toJson)),
    ("outputs", .array (g.outputs.map Parameter.toJson))]

/-- Reads a get-method. Its parameters may be missing. -/
def ofJson? (v : Json) : Option GetMethod := do
  match ← v.members? ["name", "inputs", "outputs"] with
  | [name, inputs, outputs] =>
    return ⟨← required? string? name, ← optional? [] (list? Parameter.ofJson?) inputs,
      ← optional? [] (list? Parameter.ofJson?) outputs⟩
  | _ => none

end GetMethod

/-- Splits a value with several forms into the name of its form, found in the member `name` of an
object or the first item of an array, and the rest. Here the whole value has to be sound. -/
def Json.form? (name : String) (v : Json) : Option (String × Json) :=
  if !v.isSound then none
  else
    match v with
    | .object fields => do
      let form ← (← member? fields name).bind string?
      return (form, .object (fields.filter (·.1 != name)))
    | .array (.string form :: items) => some (form, .array items)
    | _ => none

namespace MessageBody

/-- The text of a message as a JSON object. -/
def toJson : MessageBody → Json
  | .parsed d => .object (("status", .string "parsed") :: d.toFields)
  | .malformed text reason =>
    .object [("status", .string "malformed"), ("original", .string text),
      ("reason", .string reason)]

/-- How deep the text of a message may be nested. A sound value is nested at most 127 deep, and
three levels stand around a message's text. -/
def maxNesting : Nat := 124

/-- Reads the text of a message. -/
def ofJson? (v : Json) : Option MessageBody := do
  match ← (if v.nesting ≤ maxNesting then v.form? "status" else none) with
  | ("parsed", rest) => (Definition.ofJson? rest).map .parsed
  | ("malformed", rest) =>
    match ← rest.members? ["original", "reason"] with
    | [text, reason] =>
      return .malformed (← required? string? text) (← required? string? reason)
    | _ => none
  | _ => none

end MessageBody

namespace Message

/-- A message as a JSON object. -/
def toJson (m : Message) : Json := .object [("name", .string m.name), ("body", m.body.toJson)]

/-- Reads a message. -/
def ofJson? (v : Json) : Option Message := do
  match ← v.members? ["name", "body"] with
  | [name, body] => return ⟨← required? string? name, ← required? MessageBody.ofJson? body⟩
  | _ => none

end Message

namespace Document

/-- A document as a JSON object. -/
def toJson (doc : Document) : Json :=
  .object [("interfaces", .array (doc.interfaces.map Interface.toJson)),
    ("get_methods", .array (doc.getMethods.map GetMethod.toJson)),
    ("messages", .array (doc.messages.map Message.toJson))]

/-- Reads a document. -/
def ofJson? (v : Json) : Option Document := do
  match ← v.members? ["interfaces", "get_methods", "messages"] with
  | [interfaces, getMethods, messages] =>
    return ⟨← required? (list? Interface.ofJson?) interfaces,
      ← required? (list? GetMethod.ofJson?) getMethods,
      ← required? (list? Message.ofJson?) messages⟩
  | _ => none

/-- The text of a document dump. -/
def dump (doc : Document) : String := doc.toJson.pretty

/-- Reads a document dump. -/
def ofDump? (text : String) : Option Document := (Json.parse text).bind ofJson?

end Document

namespace Category

/-- The name of the category's form. -/
def form : Category → String
  | .integer _ _ => "integer"
  | .boolean => "boolean"
  | .address => "address"
  | .cell => "cell"
  | .slice => "slice"
  | .builder => "builder"
  | .text => "text"
  | .optional _ => "optional"
  | .either _ _ => "either"
  | .varUInt _ => "var_u_int"
  | .unknown _ => "unknown"

/-- A category as a JSON object. -/
def toJson (c : Category) : Json :=
  let arguments : List (String × Json) :=
    match c with
    | .integer bits signed => [("of", .object [("bits", count bits), ("signed", .bool signed)])]
    | .optional inner => [("of", toJson inner)]
    | .either left right => [("of", .array [toJson left, toJson right])]
    | .varUInt bound => [("of", count bound)]
    | .unknown raw => [("of", .string raw)]
    | _ => []
  .object (("kind", .string c.form) :: arguments)

/-- A category without arguments. Its argument may be written, but only as `null`. -/
def plain? (c : Category) : Option Json → Option Category
  | none => some c
  | some .null => some c
  | some _ => none

/-- Splits a category into the name of its form and its argument. An object names them `kind` and
`of`, and an array holds the two in this order. -/
def form? : Json → Option (String × Option Json)
  | .object fields => do
    return (← (← member? fields "kind").bind tag?, ← member? fields "of")
  | .array [.string form, argument] => some (form, some argument)
  | _ => none

/-- Reads the width and the sign of an integer, which are given by name. -/
def integer? : Json → Option Category
  | .object fields => do
    return .integer (← required? (natural? maxWord) (← member? fields "bits"))
      (← required? bool? (← member? fields "signed"))
  | _ => none

/-- Reads a category nested at most `depth` deep. -/
def ofJsonWithin? (depth : Nat) (v : Json) : Option Category :=
  match depth with
  | 0 => none
  | depth + 1 => do
    match ← form? v with
    | ("integer", argument) => integer? (← argument)
    | ("boolean", argument) => plain? .boolean argument
    | ("address", argument) => plain? .address argument
    | ("cell", argument) => plain? .cell argument
    | ("slice", argument) => plain? .slice argument
    | ("builder", argument) => plain? .builder argument
    | ("text", argument) => plain? .text argument
    | ("optional", argument) => return .optional (← ofJsonWithin? depth (← argument))
    | ("either", argument) =>
      match ← argument with
      | .array [left, right] =>
        return .either (← ofJsonWithin? depth left) (← ofJsonWithin? depth right)
      | _ => none
    | ("var_u_int", argument) => return .varUInt (← required? (natural? maxWord) argument)
    | ("unknown", argument) => return .unknown (← required? string? argument)
    | _ => none

end Category

namespace Category

/-- Reads a category. -/
def ofJson? (v : Json) : Option Category := ofJsonWithin? v.nesting v

end Category

namespace ReferenceKind

/-- The name of a reference list in JSON. -/
def tag : ReferenceKind → String
  | .getMethod => "get_method"
  | .inbound => "inbound_message"
  | .outbound => "outbound_message"

/-- Reads the name of a reference list. -/
def ofJson? (v : Json) : Option ReferenceKind := do
  match ← v.nestedTag? with
  | "get_method" => some .getMethod
  | "inbound_message" => some .inbound
  | "outbound_message" => some .outbound
  | _ => none

end ReferenceKind

namespace RecordKind

/-- The name of a record list in JSON. -/
def tag : RecordKind → String
  | .interface => "interface"
  | .getMethod => "get_method"
  | .message => "message"

/-- Reads the name of a record list. -/
def ofJson? (v : Json) : Option RecordKind := do
  match ← v.nestedTag? with
  | "interface" => some .interface
  | "get_method" => some .getMethod
  | "message" => some .message
  | _ => none

end RecordKind

namespace Warning

/-- A warning as a JSON object. -/
def toJson : Warning → Json
  | .malformedMessage name text reason =>
    .object [("warning", .string "malformed_message"), ("name", .string name),
      ("original", .string text), ("reason", .string reason)]
  | .danglingReference interface kind name =>
    .object [("warning", .string "dangling_reference"), ("interface", .string interface),
      ("kind", .string kind.tag), ("name", .string name)]
  | .missingParent interface parent =>
    .object [("warning", .string "missing_parent"), ("interface", .string interface),
      ("parent", .string parent)]
  | .cycleDetected path => .object [("warning", .string "cycle_detected"), ("path", strings path)]
  | .duplicateName kind name =>
    .object [("warning", .string "duplicate_name"), ("namespace", .string kind.tag),
      ("name", .string name)]

/-- Reads a warning. -/
def ofJson? (v : Json) : Option Warning := do
  match ← v.form? "warning" with
  | ("malformed_message", rest) =>
    match ← rest.members? ["name", "original", "reason"] with
    | [name, text, reason] =>
      return .malformedMessage (← required? string? name) (← required? string? text)
        (← required? string? reason)
    | _ => none
  | ("dangling_reference", rest) =>
    match ← rest.members? ["interface", "kind", "name"] with
    | [interface, kind, name] =>
      return .danglingReference (← required? string? interface)
        (← required? ReferenceKind.ofJson? kind) (← required? string? name)
    | _ => none
  | ("missing_parent", rest) =>
    match ← rest.members? ["interface", "parent"] with
    | [interface, parent] =>
      return .missingParent (← required? string? interface) (← required? string? parent)
    | _ => none
  | ("cycle_detected", rest) =>
    match ← rest.members? ["path"] with
    | [path] => return .cycleDetected (← required? (list? string?) path)
    | _ => none
  | ("duplicate_name", rest) =>
    match ← rest.members? ["namespace", "name"] with
    | [kind, name] =>
      return .duplicateName (← required? RecordKind.ofJson? kind) (← required? string? name)
    | _ => none
  | _ => none

end Warning

end ContractAbi
