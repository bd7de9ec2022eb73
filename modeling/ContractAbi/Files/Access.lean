import ContractAbi.Files.Path

/-!
# Access to files

What the library does with files: it reads and writes whole texts, and makes directories. A few
operations are all it needs to know of a place where files are kept.
-/

namespace ContractAbi

/-- Why files could not be accessed. -/
inductive FileError where
  | notFound
  | alreadyExists
  | notDirectory
  | isDirectory
  | nameTooLong
  /-- The path holds the character that ends paths. -/
  | nul
  /-- The file is not a text. -/
  | notText
  /-- Any other error, in words. -/
  | other (text : String)
  deriving DecidableEq

/-- What is reported for an error. -/
def FileError.message : FileError → String
  | .notFound => "No such file or directory (os error 2)"
  | .alreadyExists => "File exists (os error 17)"
  | .notDirectory => "Not a directory (os error 20)"
  | .isDirectory => "Is a directory (os error 21)"
  | .nameTooLong => "File name too long (os error 36)"
  | .nul => "file name contained an unexpected NUL byte"
  | .notText => "stream did not contain valid UTF-8"
  | .other text => text

/-- A place where files are kept. -/
structure FileAccess (m : Type → Type) where
  /-- The text of a file. -/
  read : String → m (Except FileError String)
  /-- Makes a file with a text, or replaces the text of one. -/
  write : String → String → m (Except FileError Unit)
  /-- Makes one directory. -/
  make : String → m (Except FileError Unit)
  /-- Whether a path leads to a directory. -/
  isDirectory : String → m Bool

namespace FileAccess

variable {m : Type → Type} [Monad m]

/-- Makes one directory, which may be there already. -/
def makeIfNew (files : FileAccess m) (path : String) : m (Except FileError Unit) := do
  match ← files.make path with
  | .ok () => return .ok ()
  | .error e => return if ← files.isDirectory path then .ok () else .error e

/-- Makes a directory, and first those above it if one of them is missing. -/
def makeBelow (files : FileAccess m) (path : String) : List String → m (Except FileError Unit)
  | [] => if path = "" then return .ok () else files.makeIfNew path
  | parent :: ancestors => do
    match ← files.makeIfNew path with
    | .error .notFound =>
      match ← files.makeBelow parent ancestors with
      | .ok () => files.makeIfNew path
      | .error e => return .error e
    | result => return result

/-- Makes a directory, and those that lead to it. It may be there already. -/
def makeDirectory (files : FileAccess m) (path : String) : m (Except FileError Unit) :=
  files.makeBelow path (Path.ancestors path)

end FileAccess

end ContractAbi
