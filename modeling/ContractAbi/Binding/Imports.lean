/-!
# Names that generated modules import

Generated code refers to these names without a path, so that nothing generated beside them may take
one of them.
-/

namespace ContractAbi.Binding

/-- Names imported from one path. -/
structure Import where
  path : String
  names : List String
  deriving DecidableEq

/-- What the module of an interface imports. -/
def classImports : List Import :=
  [⟨"std::sync", ["Arc"]⟩,
    ⟨"ton_abi_probe::num_bigint", ["BigInt", "BigUint"]⟩,
    ⟨"ton_abi_probe",
      ["dispatch_message", "invoke_query", "Address", "BindingError", "Cell", "ConformanceTarget",
        "ContractRuntime", "ProbeFailure", "SendOutcome", "WireValue"]⟩]

/-- What the module of the message bodies imports. -/
def messageImports : List Import :=
  [⟨"ton_abi_probe::num_bigint", ["BigInt", "BigUint"]⟩,
    ⟨"ton_abi_probe", ["Address", "Cell", "CellBuilder", "CellError", "CellSlice"]⟩]

/-- The names that are known without an import. -/
def preludeNames : List String :=
  ["Self", "Option", "Some", "None", "Result", "Ok", "Err", "String", "Vec", "Box"]

/-- The type names that are taken in a module with these imports. -/
def takenTypeNames (imports : List Import) : List String :=
  imports.flatMap (·.names) ++ preludeNames

/-- The functions that the module of every interface has. -/
def reservedMethods : List String :=
  ["new", "address", "runtime", "interface_name", "query_probes", "send_probes",
    "run_query_probe", "run_send_probe"]

/-- The modules that stand beside those of the interfaces. -/
def reservedModules : List String := ["messages", "registry"]

end ContractAbi.Binding
