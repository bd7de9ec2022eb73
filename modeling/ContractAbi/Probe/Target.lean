import ContractAbi.Contract.Basic

/-!
# Targets of probing

A target names its probes and runs each of them in some monad. The contracts of `Contract` are
targets whose probes are sessions.
-/

namespace ContractAbi

/-- Something that can be checked against an interface. -/
structure Target (m : Type → Type) where
  interface : String
  address : Address
  queries : List String
  sends : List String
  runQuery : String → m (Except ProbeFailure Unit)
  runSend : String → m (Except ProbeFailure Unit)

/-- A contract as a target, with the get-methods and messages of its class as probes. -/
def Contract.target (c : Contract) : Target Session where
  interface := c.type.interface
  address := c.address
  queries := c.type.queries.map (·.method)
  sends := c.type.sends.map (·.message)
  runQuery method := (·.mapError .binding) <$> (c.probeQuery method).run
  runSend message := (·.mapError .binding) <$> (c.probeSend message).run

end ContractAbi
