import ContractAbi.Code.Package
import ContractAbi.Generation.Failure
import ContractAbi.Probe.Registry
import ContractAbi.Schema.Encoding

/-!
# Generation

Everything that is derived from one description: the document, its inheritance, the binding model
and the generated files.
-/

namespace ContractAbi

open Json

/-- What one description gives rise to. -/
structure Generation where
  document : Document
  graph : Graph
  model : Binding.Model
  package : Code.Package
  /-- The warnings on the records, then those on the inheritance. -/
  warnings : List Warning

namespace Generation

/-- Generates from a document that has these warnings on its records. -/
def ofParts (doc : Document) (warnings : List Warning) : Generation :=
  let graph := Graph.ofDocument doc
  let model := Binding.Model.build doc graph
  ⟨doc, graph, model, Code.Package.ofModel model, warnings ++ graph.warnings⟩

/-- Generates from a document. The warnings on its records are found again. -/
def ofDocument (doc : Document) : Generation := ofParts doc doc.lint

/-- Generates from a description in XML. -/
def ofMarkup (text : String) : Except SchemaError Generation := do
  let (doc, warnings) ← Schema.parse text
  return ofParts doc warnings

/-- The classes of all interfaces, children before parents. -/
def registry (g : Generation) : Registry := Registry.ofModel g.model

/-- The document and the warnings as a JSON object. -/
def inspection (g : Generation) : Json :=
  .object [("document", g.document.toJson), ("warnings", .array (g.warnings.map Warning.toJson))]

/-- Both orders of the interfaces as a JSON object. -/
def orders (g : Generation) : Json :=
  .object [("topo_order", strings g.graph.order),
    ("reverse_topo_order", strings g.graph.reverseOrder)]

end Generation

end ContractAbi
