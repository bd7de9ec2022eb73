import ContractAbi.Binding.Model
import ContractAbi.Code.Class
import ContractAbi.Code.Messages
import ContractAbi.Code.Registry

/-!
# Everything that is generated

The generated files of a model: one for each class, the message bodies, the registry and the index.
`bundle` holds the same code in one file, with a module for each of the others.
-/

namespace ContractAbi.Code

open Binding (Model)

/-- A generated file. -/
structure File where
  name : String
  source : String
  deriving DecidableEq

/-- The generated files of a model and the warnings on it. -/
structure Package where
  /-- The file of each interface. -/
  classes : List (String × File)
  messages : File
  registry : File
  index : File
  warnings : List Warning
  deriving DecidableEq

namespace Package

/-- The file of a class. -/
def classFile (c : Binding.Class) : File := ⟨Naming.fileName c.moduleName, render (classCode c)⟩

/-- The files of a model. -/
def ofModel (m : Model) : Package where
  classes := m.classes.map fun c => (c.interface, classFile c)
  messages := ⟨"messages.rs", render (messagesCode m.dataTypes)⟩
  registry := ⟨"registry.rs", render (registryCode m)⟩
  index := ⟨"mod.rs", render (indexCode m)⟩
  warnings := m.warnings

/-- The files of a document. -/
def ofDocument (doc : Document) : Package := ofModel (Model.ofDocument doc)

/-- All files, those of the interfaces first. -/
def files (p : Package) : List File := p.classes.map (·.2) ++ [p.messages, p.registry, p.index]

/-- The file of an interface. -/
def file? (p : Package) (interface : String) : Option File :=
  (p.classes.find? (·.1 == interface)).map (·.2)

end Package

/-- A module with the code of a file in it. -/
def inlineModule (name : String) (f : File) : List Line :=
  block ("pub mod " ++ name) (texts (linesOf f.source)) ""

/-- All modules of a model in one file. -/
def bundleCode (m : Model) : List Line :=
  let p := Package.ofModel m
  texts ["// Generated contract bindings, one inline module per file.",
      "// Generated by " ++ generator ++ ". Do not edit manually."] ++
    spaced ([inlineModule "messages" p.messages, inlineModule "registry" p.registry] ++
      m.classes.map fun c => inlineModule c.moduleName (Package.classFile c)) ++
    texts ("" :: exportLines m)

/-- The text of the file that holds all modules of a model. -/
def bundle (m : Model) : String := render (bundleCode m)

end ContractAbi.Code
