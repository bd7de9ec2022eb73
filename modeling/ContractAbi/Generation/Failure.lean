import ContractAbi.Files.Access
import ContractAbi.Schema.Markup

/-!
# Failures of generation

A failure is reported with everything that it is due to: what was to be done first, what went wrong
in the end last.
-/

namespace ContractAbi

namespace SchemaError

/-- What is said of the place of a syntax error. -/
def detail : String := "syntax error"

/-- An error with what it is due to. -/
def chain (e : SchemaError) : List String :=
  match e with
  | .empty => [e.message]
  | .malformedXml | .malformedJson => [e.message ++ ": " ++ detail, detail]

end SchemaError

/-- Why nothing, or not everything, was generated. -/
inductive Failure where
  | readSource (path : String) (error : FileError)
  | fetch (address reason : String)
  | parse (error : SchemaError)
  | inSource (source : String) (error : SchemaError)
  | loadDump (source : String)
  | createDirectory (path : String) (error : FileError)
  | writeFile (path : String) (error : FileError)
  | readConfig (path : String) (error : FileError)
  | config
  | inConfig (path : String)
  | batch (failed total : Nat)
  deriving DecidableEq

namespace Failure

/-- A failure with what it is due to. -/
def chain : Failure → List String
  | .readSource path e => ["failed to read schema " ++ path, e.message]
  | .fetch address reason => ["schema request to " ++ address ++ " failed: " ++ reason]
  | .parse e => "failed to parse schema" :: e.chain
  | .inSource source e => ("in schema " ++ source) :: "failed to parse schema" :: e.chain
  | .loadDump source => ("failed to load IR from " ++ source) :: SchemaError.malformedJson.chain
  | .createDirectory path e => ["failed to create " ++ path, e.message]
  | .writeFile path e => ["failed to write " ++ path, e.message]
  | .readConfig path e => ["failed to read sources config " ++ path, e.message]
  | .config => ["invalid sources config", SchemaError.detail]
  | .inConfig path => ["in " ++ path, "invalid sources config", SchemaError.detail]
  | .batch failed total =>
    [toString failed ++ " of " ++ toString total ++ " source(s) failed"]

/-- A failure on one line. -/
def message (f : Failure) : String := ": ".intercalate f.chain

/-- The lines of a text. -/
def linesOf (text : String) : List String := text.splitOn "\n"

/-- A cause with `label` before its first line and `indent` before the others. -/
def labelled (label indent text : String) : String :=
  label ++ ("\n" ++ indent).intercalate (linesOf text)

/-- The causes of a failure, numbered from `n` on. -/
def numbered (n : Nat) : List String → List String
  | [] => []
  | cause :: causes =>
    let number := toString n
    let label := String.ofList (List.replicate (5 - number.length) ' ') ++ number ++ ": "
    labelled label "       " cause :: numbered (n + 1) causes

/-- A failure with its causes on lines of their own. They are numbered if there are several. -/
def report (f : Failure) : String :=
  match f.chain with
  | [] => ""
  | [context] => "Error: " ++ context ++ "\n"
  | [context, cause] =>
    "Error: " ++ context ++ "\n\nCaused by:\n" ++ labelled "    " "    " cause ++ "\n"
  | context :: causes =>
    "Error: " ++ context ++ "\n\nCaused by:\n" ++ "\n".intercalate (numbered 0 causes) ++ "\n"

end Failure

end ContractAbi
