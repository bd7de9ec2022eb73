import ContractAbi.Files.Access
import ContractAbi.Generation.Basic
import ContractAbi.Generation.Config

/-!
# Generating into directories

A source is read and understood before anything is written, so that a source that fails leaves no
trace. Of a list of sources every one is tried, whatever came of those before it.
-/

namespace ContractAbi

open Json

/-- What was generated from a source. -/
structure Summary where
  source : String
  directory : String
  interfaces : List String
  files : List String
  warnings : Nat
  deriving DecidableEq

/-- What came of a list of sources. -/
structure BatchSummary where
  generated : List Summary
  failed : List (String × Failure)
  deriving DecidableEq

/-- Whether no source failed. -/
def BatchSummary.isSuccess (b : BatchSummary) : Bool := b.failed.isEmpty

/-- A summary as a JSON object. -/
def Summary.toJson (s : Summary) : Json :=
  .object [("source", .string s.source), ("out_dir", .string s.directory),
    ("interfaces", strings s.interfaces), ("files", strings s.files),
    ("warnings", count s.warnings)]

/-- What came of a list of sources, as a JSON object. -/
def BatchSummary.toJson (b : BatchSummary) : Json :=
  .object [("generated", .array (b.generated.map Summary.toJson)),
    ("failed", .array (b.failed.map fun (source, f) =>
      .object [("source", .string source), ("error", .string f.message)]))]

/-- Where descriptions are read from: files, and the web, whose errors are given in words. -/
structure Library (m : Type → Type) where
  files : FileAccess m
  fetch : String → m (Except String String)

/-- The library whose only descriptions are in files. -/
def FileAccess.library {m : Type → Type} [Monad m] (files : FileAccess m) : Library m :=
  ⟨files, fun _ => return .error "no network"⟩

namespace Generation

variable {m : Type → Type} [Monad m]

/-- The text of a source. -/
def readSource (lib : Library m) : Source → ExceptT Failure m String
  | .file path => ExceptT.mk ((·.mapError (.readSource path)) <$> lib.files.read path)
  | .url address => ExceptT.mk ((·.mapError (.fetch address)) <$> lib.fetch address)

/-- Generates from the text of a source. -/
def ofText (source : Source) (text : String) : Except Failure Generation :=
  if source.isDump then
    match Document.ofDump? text with
    | some doc => .ok (ofDocument doc)
    | none => .error (.loadDump source.text)
  else (ofMarkup text).mapError (.inSource source.text)

/-- Generates from a source. -/
def ofSource (lib : Library m) (source : Source) : ExceptT Failure m Generation := do
  ofText source (← readSource lib source)

/-- The name of the file with the dump of the document. -/
def dumpName : String := "abi.json"

/-- The files to write, in order. -/
def outputs (g : Generation) (dump : Bool) : List Code.File :=
  g.package.files ++ (if dump then [⟨dumpName, g.document.dump⟩] else [])

/-- Writes files into a directory. Gives their paths. -/
def writeFiles (files : FileAccess m) (directory : String) :
    List Code.File → ExceptT Failure m (List String)
  | [] => return []
  | f :: fs => do
    let path := Path.join directory f.name
    ExceptT.mk ((·.mapError (.writeFile path)) <$> files.write path f.source)
    return path :: (← writeFiles files directory fs)

/-- Writes everything that was generated. -/
def write (g : Generation) (files : FileAccess m) (directory : String) (dump : Bool) :
    ExceptT Failure m (List String) := do
  ExceptT.mk ((·.mapError (.createDirectory directory)) <$> files.makeDirectory directory)
  writeFiles files directory (g.outputs dump)

/-- Generates from a source into a directory. -/
def intoDirectory (lib : Library m) (source : Source) (directory : String) (dump : Bool) :
    ExceptT Failure m Summary := do
  let g ← ofSource lib source
  let files ← g.write lib.files directory dump
  return ⟨source.text, directory, g.package.classes.map (·.1), files, g.warnings.length⟩

/-- Generates from entries of a list of sources, in order. -/
def runEntries (lib : Library m) (env : Environment) (config : Config) (base : String)
    (dump : Bool) : List SourceEntry → m BatchSummary
  | [] => return ⟨[], []⟩
  | e :: es => do
    let source := e.source base
    let result ← (intoDirectory lib source (config.directoryOf env e) dump).run
    let rest ← runEntries lib env config base dump es
    match result with
    | .ok summary => return { rest with generated := summary :: rest.generated }
    | .error f => return { rest with failed := (source.text, f) :: rest.failed }

/-- Generates from every source of a list. -/
def runBatch (lib : Library m) (env : Environment) (config : Config) (base : String)
    (dump : Bool) : m BatchSummary :=
  runEntries lib env config base dump config.sources

end Generation

end ContractAbi
