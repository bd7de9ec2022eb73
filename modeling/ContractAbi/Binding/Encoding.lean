import ContractAbi.Binding.Class
import ContractAbi.Schema.Encoding

/-!
# Binding models as JSON

The JSON form of a model and of its parts. The form of a field depends on where the field stands,
for so do its type in generated code and the value that a probe makes up.
-/

namespace ContractAbi

open Json

/-- A store operation as a JSON object. -/
def StoreOp.toJson : StoreOp → Json
  | .uint bits => .object [("op", .string "uint"), ("bits", count bits)]
  | .int bits => .object [("op", .string "int"), ("bits", count bits)]
  | .bit => .object [("op", .string "bit")]
  | .address => .object [("op", .string "address")]
  | .maybeRef => .object [("op", .string "maybe_ref")]
  | .varUInt bound => .object [("op", .string "var_u_int"), ("bound", count bound)]
  | .text => .object [("op", .string "text")]
  | .ref => .object [("op", .string "ref")]

namespace Binding

/-- The members of a field at its place. -/
def Field.toFields (p : Position) (f : Field) : List (String × Json) :=
  [("name", .string f.name), ("ident", .string f.ident), ("category", f.category.toJson),
    ("rust_type", .string (f.hostType p).text), ("default", .string (f.defaultValue p).tag)]

/-- A field as a JSON object. -/
def Field.toJson (p : Position) (f : Field) : Json := .object (f.toFields p)

/-- A field of a message body as a JSON object. -/
def Field.toBodyJson (f : Field) : Json :=
  .object [("field", f.toJson .messageField), ("op", f.storeOp.toJson)]

/-- A result as a JSON object. -/
def Result.toJson : Result → Json
  | .unit => .object [("shape", .string "unit")]
  | .single f => .object (("shape", .string "single") :: f.toFields .queryOutput)
  | .record typeName fields =>
    .object [("shape", .string "record"), ("type_name", .string typeName),
      ("fields", .array (fields.map (Field.toJson .queryOutput)))]

/-- A query as a JSON object. -/
def Query.toJson (q : Query) : Json :=
  .object [("method", .string q.method), ("fn_name", .string q.ident),
    ("probe_fn", .string q.probeIdent), ("probe_with_fn", orNull q.probeWithIdent),
    ("inputs", .array (q.inputs.map (Field.toJson .queryInput))), ("result", q.result.toJson)]

/-- A send as a JSON object. -/
def Send.toJson (s : Send) : Json :=
  .object [("message", .string s.message), ("fn_name", .string s.ident),
    ("probe_fn", .string s.probeIdent), ("data_type", .string s.body.typeName),
    ("opcode", s.body.opcode.toJson), ("fields", .array (s.body.fields.map Field.toBodyJson))]

/-- A data type as a JSON object. -/
def DataType.toJson (d : DataType) : Json :=
  .object [("type_name", .string d.typeName), ("definition_name", .string d.definitionName),
    ("opcode", d.opcode.toJson), ("fields", .array (d.fields.map Field.toBodyJson)),
    ("return_type", .string d.returnType)]

/-- A class as a JSON object. -/
def Class.toJson (c : Class) : Json :=
  .object [("interface", .string c.interface), ("type_name", .string c.typeName),
    ("module_name", .string c.moduleName), ("fingerprint", orNull c.fingerprint),
    ("lineage", strings c.lineage), ("queries", .array (c.queries.map Query.toJson)),
    ("sends", .array (c.sends.map Send.toJson)), ("outbound_messages", strings c.outbound)]

/-- The members of a model. -/
def Model.toFields (m : Model) : List (String × Json) :=
  [("classes", .array (m.classes.map Class.toJson)),
    ("data_types", .array (m.dataTypes.map DataType.toJson)),
    ("registration_order", strings m.registration),
    ("warnings", .array (m.warnings.map Warning.toJson))]

/-- A model as a JSON object. -/
def Model.toJson (m : Model) : Json := .object m.toFields

end Binding

end ContractAbi
