import ContractAbi.Binding.Model
import ContractAbi.Proofs.Inheritance.Declared

/-!
# Documents that read alike

What is resolved and modelled of a document is looked up in it: interfaces, get-methods and
definitions by name, the data types in the table of messages. Two documents in which the same is
found have the same graph but for warnings (`ReadsAlike.entries`), and where their tables agree as
well they have the same model but for warnings (`ReadsAlike.classes`).
-/

namespace ContractAbi

open Inheritance (firstDeclared)

/-- The same interfaces count in both documents, and a name finds the same get-method and the same
definition. -/
structure Document.ReadsAlike (doc other : Document) : Prop where
  declared : firstDeclared [] doc.interfaces = firstDeclared [] other.interfaces
  getMethod? : doc.getMethod? = other.getMethod?
  definition? : doc.definition? = other.definition?

namespace Document.ReadsAlike

open ContractAbi.Graph

variable {doc other : Document} (alike : doc.ReadsAlike other)

include alike

/-- Alike documents have the same first declarations of interfaces. -/
theorem interface? : doc.interface? = other.interface? := by
  funext name
  rw [← Inheritance.lookup_interfaces, alike.declared, Inheritance.lookup_interfaces]

/-- Members are collected from first declarations. -/
theorem membersOf (decls : List Interface) (lineage : List String) :
    Inheritance.membersOf doc decls lineage = Inheritance.membersOf other decls lineage := by
  rw [Inheritance.membersOf, alike.getMethod?, alike.definition?]
  rfl

/-- Alike documents are walked in the same order. -/
theorem order : (ofDocument doc).order = (ofDocument other).order := by
  rw [ofDocument, alike.declared]
  rfl

/-- The parents, the lineages and the members are the same. -/
theorem entries : (ofDocument doc).entries = (ofDocument other).entries := by
  simp only [ofDocument, alike.declared, alike.membersOf]

/-- If the same names of messages are declared too, then the same is reported. -/
theorem graph (messages : ∀ name, (doc.message? name).isSome = (other.message? name).isSome) :
    ofDocument doc = ofDocument other := by
  have references : Inheritance.danglingReferences doc = Inheritance.danglingReferences other := by
    funext i
    simp only [Inheritance.danglingReferences, alike.getMethod?, messages]
  simp only [ofDocument, alike.declared, alike.membersOf, references]

/-- Alike documents give their interfaces the same members. -/
theorem members? (name : String) :
    (ofDocument doc).members? name = (ofDocument other).members? name := by
  rw [Graph.members?, entry?, alike.entries]
  rfl

/-- Alike documents have the same lineages. -/
theorem lineage (name : String) :
    (ofDocument doc).lineage name = (ofDocument other).lineage name := by
  rw [Graph.lineage, entry?, alike.entries]
  rfl

open Binding

section

variable (table : MessageTable.ofMessages doc.messages = MessageTable.ofMessages other.messages)

include table

/-- Alike documents have the same classes. -/
theorem classes : (Model.ofDocument doc).classes = (Model.ofDocument other).classes := by
  have each : classOf doc (ofDocument doc) (MessageTable.ofMessages doc.messages) =
      classOf other (ofDocument other) (MessageTable.ofMessages other.messages) := by
    funext i
    simp only [classOf, Binding.membersOf, alike.members?, alike.lineage, alike.getMethod?, table]
  simp only [Model.ofDocument, Model.build, each, alike.order, alike.interface?]

/-- Where the graphs agree as well, the models are the same. -/
theorem model (messages : ∀ name, (doc.message? name).isSome = (other.message? name).isSome) :
    Model.ofDocument doc = Model.ofDocument other := by
  have classes := alike.classes table
  have dataTypes := congrArg MessageTable.dataTypes table
  have graph := alike.graph messages
  simp only [Model.ofDocument] at classes ⊢
  rw [Model.build, Model.build, dataTypes, graph]
  rw [Model.build, Model.build, graph] at classes
  exact congrArg (Model.mk · _ _ _) classes

end

end Document.ReadsAlike

end ContractAbi
