import ContractAbi.Wire.Value

/-!
# Calls of contracts

The two things that can be asked of a contract: to run a get-method, which changes nothing, and to
take in a message. Each kind of call has its own kind of reply.
-/

namespace ContractAbi

/-- Why a call failed. -/
inductive CallErrorKind where
  | methodNotFound
  | invalidArguments
  | unreachable
  | other
  deriving DecidableEq

namespace CallErrorKind

/-- A kind in words. -/
def describe : CallErrorKind → String
  | .methodNotFound => "method not found"
  | .invalidArguments => "invalid arguments"
  | .unreachable => "target unreachable"
  | .other => "invocation failed"

/-- The name of a kind. -/
def tag : CallErrorKind → String
  | .methodNotFound => "method_not_found"
  | .invalidArguments => "invalid_arguments"
  | .unreachable => "unreachable"
  | .other => "other"

/-- The kind that an exit code stands for. -/
def ofExitCode (code : Int) : CallErrorKind :=
  if code = 11 then .methodNotFound
  else if code = 4 then .invalidArguments
  else if code = 2 then .unreachable
  else .other

end CallErrorKind

/-- A failed call. The exit code is there if the contract itself failed. -/
structure CallError where
  kind : CallErrorKind
  exitCode : Option Int
  text : String
  deriving DecidableEq

namespace CallError

/-- A failure outside the contract. -/
def ofKind (kind : CallErrorKind) (text : String) : CallError := ⟨kind, none, text⟩

/-- A failure with an exit code. -/
def ofExitCode (code : Int) (text : String) : CallError := ⟨.ofExitCode code, some code, text⟩

/-- What is reported for a failed call. -/
def message (e : CallError) : String := e.kind.describe ++ ": " ++ e.text

end CallError

/-- A transaction that a message gave rise to. -/
structure Transaction where
  hash : String
  success : Bool
  exitCode : Option Int
  deriving DecidableEq

/-- What came of a message. It says nothing about whether the contract did what was asked. -/
structure Outcome where
  transactions : List Transaction
  deriving DecidableEq

/-- A call of the contract at an address. -/
inductive Call where
  | query (address : Address) (method : String) (args : List WireValue)
  | send (address : Address) (payload : Cell)

/-- What a call is answered with. -/
abbrev Call.Reply : Call → Type
  | .query .. => Except CallError (List WireValue)
  | .send .. => Except CallError Outcome

end ContractAbi
