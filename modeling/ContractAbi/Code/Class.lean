import ContractAbi.Code.Header
import ContractAbi.Code.Value
import ContractAbi.Text.Quoted

/-!
# The file of an interface

A type that holds an address and a runtime, with a function for each query and each send, a probe
for each of them, and the list of all probes.
-/

namespace ContractAbi.Code

open Binding (Field Query Result Send)
open Text.Quoted (quote)

/-- The type that gathers the results of a query, where there is one. -/
def resultType (q : Query) : List (List Line) :=
  match q.result with
  | .record typeName fields =>
    [texts ["/// Result of `" ++ q.method ++ "`, in stack order.",
        "#[derive(Debug, Clone, PartialEq)]"] ++
      block ("pub struct " ++ typeName) (texts (memberLines fields .queryOutput)) ""]
  | _ => []

/-- The type of the result of a query. -/
def resultTypeName : Result → String
  | .unit => "()"
  | .single field => (field.hostType .queryOutput).text
  | .record typeName _ => typeName

/-- The lines that call a get-method and read its result. -/
def queryBody (q : Query) : List Line :=
  let method := quote q.method
  let values := ", ".intercalate (q.inputs.map fun f => "WireValue::from(" ++ f.ident ++ ")")
  let call := "invoke_query(self.runtime.as_ref(), &self.address, " ++ method ++ ", vec![" ++
    values ++ "]).await?"
  match q.result with
  | .unit => texts [call ++ ";", "Ok(())"]
  | .single field =>
    texts ["let mut stack = " ++ call ++ ";",
      "let value = stack." ++ readerMethod field.category ++
        "().map_err(|e| BindingError::shape(" ++ method ++ ", e))?;",
      "Ok(value)"]
  | .record typeName fields =>
    texts ["let mut stack = " ++ call ++ ";",
        "let shape = |e| BindingError::shape(" ++ method ++ ", e);"] ++
      block ("Ok(" ++ typeName)
        (texts (fields.map fun f =>
          f.ident ++ ": stack." ++ readerMethod f.category ++ "().map_err(shape)?,")) ")"

/-- The function of a query. -/
def queryFunction (q : Query) : List Line :=
  .text ("/// Calls get-method `" ++ q.method ++ "`.") ::
    block ("pub async fn " ++ q.ident ++ "(&self" ++ parameters q.inputs .queryInput ++
      ") -> Result<" ++ resultTypeName q.result ++ ", BindingError>") (queryBody q) ""

/-- The function of a send. -/
def sendFunction (s : Send) : List Line :=
  let message := quote s.message
  let body :=
    if s.body.fields.isEmpty then "\x7b\x7d" else "\x7b " ++ arguments s.body.fields ++ " \x7d"
  .text ("/// Sends internal message `" ++ s.message ++ "` (opcode `" ++
      s.body.opcode.text ++ "`).") ::
    block ("pub async fn " ++ s.ident ++ "(&self" ++ parameters s.body.fields .messageField ++
        ") -> Result<SendOutcome, BindingError>")
      (texts ["let body = super::messages::" ++ s.body.typeName ++ " " ++ body ++ ";",
        "let payload = body.to_cell().map_err(|e| BindingError::payload(" ++ message ++ ", e))?;",
        "dispatch_message(self.runtime.as_ref(), &self.address, " ++ message ++
          ", payload).await"]) ""

/-- A probe function. -/
def probeFunction (comment ident params : String) (body : List String) : List Line :=
  .text ("/// " ++ comment) ::
    block ("pub async fn " ++ ident ++ "(&self" ++ params ++ ") -> Result<(), ProbeFailure>")
      (texts body) ""

/-- The probes of a query. -/
def queryProbes (q : Query) : List (List Line) :=
  match q.probeWithIdent with
  | some withIdent =>
    [probeFunction ("Probes `" ++ q.method ++ "` with default arguments.") q.probeIdent ""
        ["self." ++ withIdent ++ "(" ++ defaultArguments q.inputs .queryInput ++ ").await"],
      probeFunction ("Probes `" ++ q.method ++ "` with caller-supplied arguments.") withIdent
        (parameters q.inputs .queryInput)
        ["self." ++ q.ident ++ "(" ++ arguments q.inputs ++ ").await?;", "Ok(())"]]
  | none =>
    [probeFunction ("Probes `" ++ q.method ++ "`.") q.probeIdent ""
      ["self." ++ q.ident ++ "().await?;", "Ok(())"]]

/-- The probe of a send. -/
def sendProbe (s : Send) : List Line :=
  probeFunction ("Sends `" ++ s.message ++
      "` with default field values; only dispatch is checked.") s.probeIdent ""
    ["self." ++ s.ident ++ "(" ++ defaultArguments s.body.fields .messageField ++ ").await?;",
      "Ok(())"]

/-- The function that lists probes. -/
def listFunction (name : String) (probes : List String) : List Line :=
  block ("fn " ++ name ++ "(&self) -> Vec<&str>")
    [.text ("vec![" ++ ", ".intercalate (probes.map quote) ++ "]")] ""

/-- The function that runs a probe by name. -/
def dispatchFunction (name parameter : String) (probes : List (String × String)) : List Line :=
  block ("async fn " ++ name ++ "(&self, " ++ parameter ++ ": &str) -> Result<(), ProbeFailure>")
    (block ("match " ++ parameter)
      (texts (probes.map (fun p => quote p.1 ++ " => self." ++ p.2 ++ "().await,") ++
        ["other => Err(ProbeFailure::UnknownProbe(other.to_string())),"])) "") ""

/-- The function that gives the address. -/
def addressFunction (start : String) : List Line :=
  block (start ++ "fn address(&self) -> &Address") [.text "&self.address"] ""

/-- The list of all probes. -/
def conformanceCode (c : Binding.Class) : List Line :=
  .text "#[ton_abi_probe::async_trait]" ::
    block ("impl ConformanceTarget for " ++ c.typeName)
      (block "fn interface_name(&self) -> &str" [.text "Self::INTERFACE"] "" ++
        spaced [addressFunction "",
          listFunction "query_probes" (c.queries.map (·.method)),
          listFunction "send_probes" (c.sends.map (·.message)),
          dispatchFunction "run_query_probe" "method"
            (c.queries.map fun q => (q.method, q.probeIdent)),
          dispatchFunction "run_send_probe" "message"
            (c.sends.map fun s => (s.message, s.probeIdent))]) ""

/-- The comment at the start of the file. -/
def classHeader (c : Binding.Class) : List Line :=
  fileHeader ("Binding for the `" ++ c.interface ++ "` interface.") ++
    texts ((match c.lineage with
      | _ :: ancestor :: rest => ["//!", "//! Inherits: " ++ " -> ".intercalate (ancestor :: rest)]
      | _ => []) ++
      (match c.fingerprint with
      | some hash => ["//! Code hash: `" ++ hash ++ "`"]
      | none => []) ++
      (if c.outbound.isEmpty then [] else ["//! Emits: " ++ ", ".intercalate c.outbound]))

/-- The functions of the type of an interface. -/
def classFunctions (c : Binding.Class) : List (List Line) :=
  [block "pub fn new(address: Address, runtime: Arc<dyn ContractRuntime>) -> Self"
      [.text "Self \x7b address, runtime \x7d"] "",
    addressFunction "pub "] ++
    c.queries.map queryFunction ++ c.sends.map sendFunction ++
    c.queries.flatMap queryProbes ++ c.sends.map sendProbe

/-- The code of the file of an interface. -/
def classCode (c : Binding.Class) : List Line :=
  classHeader c ++
    [blank,
      .text "#![allow(unused_imports, non_camel_case_types, clippy::too_many_arguments)]", blank] ++
    importLines Binding.classImports ++
    spaced (c.queries.flatMap resultType) ++
    spaced
      [texts ["/// Typed access to a contract implementing `" ++ c.interface ++ "`.",
          "#[derive(Clone)]"] ++
        block ("pub struct " ++ c.typeName)
          (texts ["address: Address,", "runtime: Arc<dyn ContractRuntime>,"]) "",
      block ("impl " ++ c.typeName)
        (.text ("pub const INTERFACE: &'static str = " ++ quote c.interface ++ ";") ::
          spaced (classFunctions c)) "",
      conformanceCode c]

end ContractAbi.Code
