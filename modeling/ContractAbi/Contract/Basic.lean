import ContractAbi.Contract.Payload
import ContractAbi.Session.Basic

/-!
# Contracts

A contract at an address, seen through the class of an interface. Its queries and sends are carried
out by the model alone: arguments and results are checked against the declared categories, and
message bodies are stored field by field. A probe is a query or a send with made-up values.
-/

namespace ContractAbi

open Binding (Query Send)

namespace Binding.Query

/-- The first argument that its field does not take, as an error. -/
def checkFields (method : String) : List (Field × WireValue) → Except BindingError Unit
  | [] => .ok ()
  | (f, arg) :: rest =>
    match f.category.inputFault? arg with
    | some expected => .error (.argument method f.name expected arg.kind)
    | none => checkFields method rest

/-- Checks the arguments of a query: first their number, then each in order. -/
def checkArgs (q : Query) (args : List WireValue) : Except BindingError Unit :=
  if args.length ≠ q.inputs.length then
    .error (.arity q.method q.inputs.length args.length)
  else checkFields q.method (q.inputs.zip args)

/-- Reads fields off a stack in order. -/
def readFields : List Field → Read (List WireValue)
  | [] => return []
  | f :: fs => do
    let v ← Read.category f.category
    return v :: (← readFields fs)

/-- The results of a query from the stack that came back. Entries behind them do not count. -/
def readResults (q : Query) (items : List WireValue) : Except BindingError (List WireValue) :=
  match readFields q.result.fields (.ofList items) with
  | .ok values _ => .ok values
  | .error e _ => .error (.shape q.method e)

/-- The arguments that a probe makes up. -/
def defaultArgs (q : Query) : List WireValue :=
  q.inputs.map fun f => (f.defaultValue .queryInput).wireValue

end Binding.Query

/-- The arguments that a probe makes up. -/
def Binding.Send.defaultArgs (s : Send) : List WireValue :=
  s.body.fields.map fun f => (f.defaultValue .messageField).wireValue

/-- A contract that is taken to have an interface. -/
structure Contract where
  type : Binding.Class
  address : Address

/-- An access to contracts, which may fail. -/
abbrev Access := ExceptT BindingError Session

namespace Contract

/-- The error for a member that the interface does not have. -/
def unknown (c : Contract) (member : String) : BindingError :=
  .unknownMember c.type.interface member

/-- The query of a get-method. -/
def queryOf (c : Contract) (method : String) : Except BindingError Query :=
  match c.type.query? method with
  | some q => .ok q
  | none => .error (c.unknown method)

/-- The send of a message. -/
def sendOf (c : Contract) (message : String) : Except BindingError Send :=
  match c.type.send? message with
  | some s => .ok s
  | none => .error (c.unknown message)

/-- Calls a get-method. -/
def invoke (c : Contract) (method : String) (args : List WireValue) : Access (List WireValue) :=
  ExceptT.mk do
    let reply : Except CallError (List WireValue) ← Session.ask (.query c.address method args)
    return reply.mapError (.invocation method)

/-- Sends a message body. -/
def dispatch (c : Contract) (message : String) (payload : Cell) : Access Outcome :=
  ExceptT.mk do
    let reply : Except CallError Outcome ← Session.ask (.send c.address payload)
    return reply.mapError (.send message)

/-- Runs a get-method and gives its declared results. -/
def query (c : Contract) (method : String) (args : List WireValue) : Access (List WireValue) := do
  let q ← c.queryOf method
  q.checkArgs args
  q.readResults (← c.invoke method args)

/-- The body of a message. -/
def payload (c : Contract) (message : String) (args : List WireValue) :
    Except BindingError Cell := do
  (← c.sendOf message).payload args

/-- Sends a message. -/
def send (c : Contract) (message : String) (args : List WireValue) : Access Outcome := do
  c.dispatch message (← c.payload message args)

/-- Queries a get-method with made-up arguments. -/
def probeQuery (c : Contract) (method : String) : Access Unit := do
  let q ← c.queryOf method
  discard (c.query method q.defaultArgs)

/-- Sends a message with made-up values. -/
def probeSend (c : Contract) (message : String) : Access Unit := do
  let s ← c.sendOf message
  discard (c.send message s.defaultArgs)

end Contract

end ContractAbi
