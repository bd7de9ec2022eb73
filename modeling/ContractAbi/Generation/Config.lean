import ContractAbi.Files.Path
import ContractAbi.Generation.Source
import ContractAbi.Json.Basic
import ContractAbi.Text.Blank
import ContractAbi.Text.Decimal

/-!
# Configuration

A list of sources to generate from, with the directories that the results go to, and the settings
that the environment holds. The directory of a source is looked for at the source itself, in the
list, in the environment; failing all that, it has a fixed name.
-/

namespace ContractAbi

/-- The settings of the environment, as far as they are set. -/
structure Environment where
  outputDirectory : Option String
  httpTimeout : Option String
  deriving DecidableEq

namespace Environment

/-- No settings at all. -/
def empty : Environment := ⟨none, none⟩

/-- The directory for results where nothing else is said. -/
def defaultDirectory : String := "generated"

/-- How many seconds a request may take where nothing else is said. -/
def defaultTimeout : Nat := 30

/-- The most seconds that can be set. -/
def maxTimeout : Nat := UInt64.size - 1

/-- The directory for results: the one that is asked for, or that of the environment. A setting of
blanks counts as not set. -/
def directory (env : Environment) (explicit : Option String) : String :=
  let setting := env.outputDirectory.filter fun d => !Text.isAllBlank d
  (explicit <|> setting).getD defaultDirectory

/-- How many seconds a request may take. A setting that is no positive number does not count. -/
def timeout (env : Environment) : Nat :=
  let setting := env.httpTimeout.bind fun t => Text.Decimal.natural? maxTimeout (Text.trim t.toList)
  (setting.filter (0 < ·)).getD defaultTimeout

end Environment

/-- What kind of source an entry names. -/
inductive SourceKind where
  | url
  | file
  deriving DecidableEq

namespace SourceKind

/-- The name of a kind. -/
def tag : SourceKind → String
  | .url => "url"
  | .file => "file"

/-- Reads a kind. -/
def ofJson? (v : Json) : Option SourceKind := do
  match ← v.tag? with
  | "url" => some .url
  | "file" => some .file
  | _ => none

end SourceKind

/-- A source of a list, and the directory for its results if it has one of its own. -/
structure SourceEntry where
  kind : SourceKind
  path : String
  outputDirectory : Option String
  deriving DecidableEq

namespace SourceEntry

open Json

/-- The source of an entry. Files are taken relative to `base`. -/
def source (e : SourceEntry) (base : String) : Source :=
  match e.kind with
  | .url => .url e.path
  | .file => .file (Path.join base e.path)

/-- An entry as a JSON object. -/
def toJson (e : SourceEntry) : Json :=
  .object ([("type", .string e.kind.tag), ("path", .string e.path)] ++
    optionalMember "outputDir" e.outputDirectory)

/-- Reads an entry. -/
def ofJson? (v : Json) : Option SourceEntry := do
  match ← v.members? ["type", "path", "outputDir"] with
  | [kind, path, outputDirectory] =>
    return ⟨← required? SourceKind.ofJson? kind, ← required? string? path,
      ← optional? none (nullable? string?) outputDirectory⟩
  | _ => none

end SourceEntry

/-- A list of sources, and the directory for the results of those without one of their own. -/
structure Config where
  sources : List SourceEntry
  outputDirectory : Option String
  deriving DecidableEq

namespace Config

open Json

/-- The directory for the results of an entry. -/
def directoryOf (c : Config) (env : Environment) (e : SourceEntry) : String :=
  (e.outputDirectory <|> c.outputDirectory).getD (env.directory none)

/-- A list of sources as a JSON object. -/
def toJson (c : Config) : Json :=
  .object (("sources", .array (c.sources.map SourceEntry.toJson)) ::
    optionalMember "defaultOutputDir" c.outputDirectory)

/-- Reads a list of sources. -/
def ofJson? (v : Json) : Option Config := do
  match ← v.members? ["sources", "defaultOutputDir"] with
  | [sources, outputDirectory] =>
    return ⟨← required? (list? SourceEntry.ofJson?) sources,
      ← optional? none (nullable? string?) outputDirectory⟩
  | _ => none

end Config

end ContractAbi
