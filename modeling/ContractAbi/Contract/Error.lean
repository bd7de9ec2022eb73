import ContractAbi.Session.Call
import ContractAbi.Wire.Stack

/-!
# Errors of contract access
-/

namespace ContractAbi

/-- Why a contract could not be asked, or did not answer as declared. -/
inductive BindingError where
  | invocation (method : String) (source : CallError)
  | shape (method : String) (source : StackError)
  | payload (message : String) (source : CellError)
  | send (message : String) (source : CallError)
  | unknownMember (interface member : String)
  | arity (member : String) (expected found : Nat)
  | argument (member name : String) (expected : Expectation) (found : WireKind)
  deriving DecidableEq

namespace BindingError

/-- What is reported for an error. -/
def message : BindingError → String
  | .invocation method source => "get-method '" ++ method ++ "' failed: " ++ source.message
  | .shape method source =>
    "get-method '" ++ method ++ "' returned an unexpected result: " ++ source.message
  | .payload message source =>
    "message '" ++ message ++ "' could not be serialized: " ++ source.message
  | .send message source => "message '" ++ message ++ "' could not be sent: " ++ source.message
  | .unknownMember interface member =>
    "'" ++ member ++ "' is not a member of interface '" ++ interface ++ "'"
  | .arity member expected found =>
    "'" ++ member ++ "' takes " ++ toString expected ++ " arguments, " ++ toString found ++ " given"
  | .argument member name expected found =>
    "argument '" ++ name ++ "' of '" ++ member ++ "': expected " ++ expected.describe ++
      ", found " ++ found.describe

/-- The kind of the failed call, where it was a call that failed. -/
def callKind? : BindingError → Option CallErrorKind
  | .invocation _ source | .send _ source => some source.kind
  | _ => none

end BindingError

/-- Why a probe did not pass. -/
inductive ProbeFailure where
  | binding (error : BindingError)
  | unknownProbe (name : String)
  deriving DecidableEq

/-- What is reported for a failed probe. -/
def ProbeFailure.message : ProbeFailure → String
  | .binding error => error.message
  | .unknownProbe name => "no probe named '" ++ name ++ "'"

end ContractAbi
