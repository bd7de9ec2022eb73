import ContractAbi.Binding.Messages
import ContractAbi.Inheritance.Graph

/-!
# The binding model of a document

Classes come in the order of the graph, parents first, and each has the members of its whole
lineage. Names are made unique scope by scope: the functions of a class, its type names, the fields
of one list, and the classes and modules of the model.
-/

namespace ContractAbi.Binding

open Naming (identifier identifierPart typeName moduleName)

/-- The names that are taken in the module of a class. -/
structure Scope where
  methods : Namer
  types : Namer
  deriving DecidableEq

namespace Scope

/-- The scope of a class that has its type name. -/
def ofClass (name : String) : Scope where
  methods := .reserving reservedMethods
  types := .reserving (name :: takenTypeNames classImports)

/-- Claims the name of a function. -/
def method (candidate : String) : StateM Scope String := fun s =>
  let (name, namer) := (Namer.claim candidate).run s.methods
  (name, { s with methods := namer })

/-- Claims the name of a type. -/
def type (candidate : String) : StateM Scope String := fun s =>
  let (name, namer) := (Namer.claim candidate).run s.types
  (name, { s with types := namer })

end Scope

/-- The result of a get-method. -/
def resultOf (method : GetMethod) : StateM Scope Result := do
  match fieldsOf Category.ofParameter method.outputs with
  | [] => return .unit
  | [field] => return .single field
  | fields => return .record (← Scope.type (typeName method.name ++ "Result")) fields

/-- The query of a get-method. -/
def queryOf (method : GetMethod) : StateM Scope Query := do
  let part := identifierPart method.name
  let ident ← Scope.method (identifier method.name)
  let probeIdent ← Scope.method ("probe_" ++ part)
  let inputs := fieldsOf Category.ofParameter method.inputs
  let probeWithIdent ←
    if inputs.isEmpty then pure none
    else some <$> Scope.method ("probe_" ++ part ++ "_with")
  let result ← resultOf method
  return { method := method.name, ident, probeIdent, probeWithIdent, inputs, result }

/-- The send of a message. -/
def sendOf (message : String) (body : DataType) : StateM Scope Send := do
  let part := identifierPart message
  let ident ← Scope.method ("send_" ++ part)
  let probeIdent ← Scope.method ("probe_send_" ++ part)
  return { message, ident, probeIdent, body }

/-- The queries and sends of members. -/
def membersOf (doc : Document) (table : MessageTable) (members : Members) :
    StateM Scope (List Query × List Send) := do
  let queries ← (members.getMethods.filterMap doc.getMethod?).mapM queryOf
  let bodies := members.inbound.filterMap fun m => (table.lookup m).map (m, ·)
  let sends ← bodies.mapM fun (m, body) => sendOf m body
  return (queries, sends)

/-- The names that are taken by classes. -/
structure ClassNames where
  types : Namer
  modules : Namer
  deriving DecidableEq

namespace ClassNames

/-- Nothing but what generated code needs. -/
def empty : ClassNames where
  types := .reserving (takenTypeNames classImports)
  modules := .reserving reservedModules

/-- Claims the type name and the module name for an interface. -/
def claim (interface : String) : StateM ClassNames (String × String) := fun s =>
  let (typeName, types) := (Namer.claim (typeName interface)).run s.types
  let (moduleName, modules) := (Namer.claim (moduleName interface)).run s.modules
  ((typeName, moduleName), ⟨types, modules⟩)

end ClassNames

/-- The class of an interface. -/
def classOf (doc : Document) (graph : Graph) (table : MessageTable) (i : Interface) :
    StateM ClassNames Class := do
  let (typeName, moduleName) ← ClassNames.claim i.name
  let members := (graph.members? i.name).getD .empty
  let ((queries, sends), _) := (membersOf doc table members).run (.ofClass typeName)
  return {
    interface := i.name, typeName, moduleName, fingerprint := i.fingerprint
    lineage := graph.lineage i.name, queries, sends, outbound := members.outbound }

namespace Model

/-- The binding model of a document whose inheritance is resolved. -/
def build (doc : Document) (graph : Graph) : Model :=
  let table := MessageTable.ofMessages doc.messages
  let declared := graph.order.filterMap doc.interface?
  let classes := ((declared.mapM (classOf doc graph table)).run .empty).1
  ⟨classes, table.dataTypes, graph.reverseOrder, graph.warnings⟩

/-- The binding model of a document. -/
def ofDocument (doc : Document) : Model := build doc (Graph.ofDocument doc)

end Model

end ContractAbi.Binding
