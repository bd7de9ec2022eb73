import ContractAbi.Binding.Imports
import ContractAbi.Code.Line

/-!
# Heads of generated files
-/

namespace ContractAbi.Code

/-- The name of the generator. -/
def generator : String := "ton-abi-bindgen"

/-- Lines of text. -/
def texts (contents : List String) : List Line := contents.map .text

/-- The comment at the start of a file. -/
def fileHeader (summary : String) : List Line :=
  texts ["//! " ++ summary, "//!", "//! Generated by " ++ generator ++ ". Do not edit manually."]

/-- The line of an import. -/
def importLine (i : Binding.Import) : String :=
  match i.names with
  | [name] => "use " ++ i.path ++ "::" ++ name ++ ";"
  | names => "use " ++ i.path ++ "::\x7b" ++ ", ".intercalate names ++ "\x7d;"

/-- The lines of imports. -/
def importLines (imports : List Binding.Import) : List Line := texts (imports.map importLine)

end ContractAbi.Code
