import ContractAbi.Command.Arguments
import ContractAbi.Generation.Output

/-!
# Carrying out calls

What a call prints, what it writes, and the code that it ends with: zero for success, one for a
failure, two for arguments that make no sense.
-/

namespace ContractAbi.Command

/-- What a call ends with. -/
structure Outcome where
  code : Nat
  output : String
  errors : String
  deriving DecidableEq

namespace Outcome

/-- Success with an output. -/
def success (output : String) : Outcome := ⟨0, output, ""⟩

/-- A failure after an output. -/
def failure (output : String) (f : Failure) : Outcome := ⟨1, output, f.report⟩

end Outcome

/-- The name of the program. -/
def programName : String := Code.generator

/-- The version of the program. -/
def version : String := "0.1.0"

/-- What can be called. -/
def usage : String :=
  "Usage: " ++ programName ++ " [--json] <COMMAND>\n\n" ++
    "  generate <SOURCE> [-o <DIR>] [--dump-ir]  write one binding module for each interface\n" ++
    "  inspect <SOURCE>                          print the document and all warnings\n" ++
    "  order <SOURCE>                            print the interfaces in both orders\n" ++
    "  batch <CONFIG> [--dump-ir]                generate for every source of a list\n"

/-- Lines as a text. -/
def lines (ls : List String) : String := String.join (ls.map (· ++ "\n"))

/-- A summary as it is printed. -/
def summaryText (json : Bool) (s : Summary) : String :=
  if json then s.toJson.pretty ++ "\n"
  else
    lines (("Generated " ++ toString s.interfaces.length ++ " interface(s) into " ++ s.directory ++
      " (" ++ toString s.warnings ++ " warning(s))") :: s.files.map ("  " ++ ·))

/-- Both orders as they are printed. -/
def ordersText (json : Bool) (g : Generation) : String :=
  if json then g.orders.sorted.pretty ++ "\n"
  else
    lines ["topo:    " ++ ", ".intercalate g.graph.order,
      "reverse: " ++ ", ".intercalate g.graph.reverseOrder]

/-- What came of a list of sources, as it is printed. -/
def batchText (json : Bool) (b : BatchSummary) : String :=
  if json then b.toJson.pretty ++ "\n"
  else
    lines (b.generated.map (fun s => "ok      " ++ s.source ++ " -> " ++ s.directory) ++
      b.failed.map fun (source, f) => "failed  " ++ source ++ ": " ++ f.message)

section

variable {m : Type → Type} [Monad m]

/-- The list of sources in a file. -/
def loadConfig (files : FileAccess m) (path : String) : ExceptT Failure m Config := do
  let text ← ExceptT.mk ((·.mapError (.readConfig path)) <$> files.read path)
  match (Json.parse text).bind Config.ofJson? with
  | some config => return config
  | none => throw (.inConfig path)

/-- Carries out a batch. It fails if one of its sources does, but prints what came of all. -/
def runBatch (lib : Library m) (env : Environment) (path : String) (dump json : Bool) :
    m Outcome := do
  match ← (loadConfig lib.files path).run with
  | .error f => return .failure "" f
  | .ok config =>
    let base := (Path.parent? path).getD "."
    let summary ← Generation.runBatch lib env config base dump
    let output := batchText json summary
    if summary.isSuccess then return .success output
    else return .failure output (.batch summary.failed.length config.sources.length)

/-- The outcome of a task that gives an output. -/
def finish (task : ExceptT Failure m String) : m Outcome := do
  match ← task.run with
  | .ok output => return .success output
  | .error f => return .failure "" f

/-- Carries out a task. -/
def runTask (lib : Library m) (env : Environment) (json : Bool) : Task → m Outcome
  | .generate source output dump =>
    finish do
      let directory := env.directory output
      let summary ← Generation.intoDirectory lib (.ofArgument source) directory dump
      return summaryText json summary
  | .inspect source =>
    finish do
      let g ← Generation.ofSource lib (.ofArgument source)
      return g.inspection.sorted.pretty ++ "\n"
  | .order source =>
    finish do return ordersText json (← Generation.ofSource lib (.ofArgument source))
  | .batch config dump => runBatch lib env config dump json

/-- Carries out a call. -/
def run (lib : Library m) (env : Environment) (args : List String) : m Outcome :=
  match Request.ofArguments args with
  | .run task json => runTask lib env json task
  | .help => return .success usage
  | .version => return .success (programName ++ " " ++ version ++ "\n")
  | .misuse => return ⟨2, "", usage⟩

end

end ContractAbi.Command
