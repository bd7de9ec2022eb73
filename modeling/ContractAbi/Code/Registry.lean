import ContractAbi.Code.Header
import ContractAbi.Binding.Class
import ContractAbi.Text.Quoted

/-!
# The registry and the index of modules
-/

namespace ContractAbi.Code

open Binding (Model)

/-- The entry of a class in the registry. -/
def registration (c : Binding.Class) : List Line :=
  block ("registry.register(" ++ Text.Quoted.quote c.interface ++ ", |address, runtime|")
    [.text ("Box::new(super::" ++ c.moduleName ++ "::" ++ c.typeName ++
      "::new(address, runtime))")] ");"

/-- The code of the file that registers all classes, children before parents. -/
def registryCode (m : Model) : List Line :=
  fileHeader "Interface name to binding factory registration." ++
    texts ["", "use ton_abi_probe::BindingRegistry;", "",
      "/// Register every generated binding, most derived interface first."] ++
    block "pub fn register_all(registry: &mut BindingRegistry)"
      ((m.registration.filterMap m.class?).flatMap registration) ""

/-- The lines that export what the modules hold. -/
def exportLines (m : Model) : List String :=
  m.classes.map (fun c => "pub use " ++ c.moduleName ++ "::" ++ c.typeName ++ ";") ++
    ["pub use registry::register_all;"]

/-- The code of the index of modules. -/
def indexCode (m : Model) : List Line :=
  fileHeader "Generated contract bindings." ++
    texts (["", "pub mod messages;", "pub mod registry;"] ++
      m.classes.map (fun c => "pub mod " ++ c.moduleName ++ ";") ++ [""] ++ exportLines m)

end ContractAbi.Code
