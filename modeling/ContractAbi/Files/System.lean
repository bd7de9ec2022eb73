import ContractAbi.Files.Access

/-!
# File systems

A file system as a value: which names lead to a file or a directory from the root on, and where
relative paths start. A path is followed name by name, and each name but the last must be one of a
directory.
-/

namespace ContractAbi

/-- What a path leads to. -/
inductive FileNode where
  | directory
  | file (text : String)
  deriving DecidableEq

/-- Files and directories. The root is a directory and has no entry. -/
structure FileSystem where
  /-- Where relative paths start. -/
  workingDirectory : List String
  entries : List (List String × FileNode)
  deriving DecidableEq

namespace FileSystem

/-- The most bytes that a name may have. -/
def maxName : Nat := 255

/-- The most bytes that a path may have. -/
def maxPath : Nat := 4095

/-- What is at a place. -/
def node? (fs : FileSystem) (place : List String) : Option FileNode :=
  if place = [] then some .directory else (fs.entries.find? (·.1 == place)).map (·.2)

/-- Whether there is a directory at a place. -/
def isDirectoryAt (fs : FileSystem) (place : List String) : Bool :=
  fs.node? place == some .directory

/-- The entries with what is at a place replaced, or added at the end. -/
def putEntry (place : List String) (node : FileNode) :
    List (List String × FileNode) → List (List String × FileNode)
  | [] => [(place, node)]
  | e :: es => if e.1 = place then (place, node) :: es else e :: putEntry place node es

/-- Puts something at a place. -/
def put (fs : FileSystem) (place : List String) (node : FileNode) : FileSystem :=
  { fs with entries := putEntry place node fs.entries }

/-- The place that one more name leads to, whether there is something or not. -/
def step (fs : FileSystem) (place : List String) (name : String) : Except FileError (List String) :=
  if !fs.isDirectoryAt place then .error .notDirectory
  else if name = "." then .ok place
  else if name = ".." then .ok place.dropLast
  else if name.utf8ByteSize > maxName then .error .nameTooLong
  else .ok (place ++ [name])

/-- Follows names that all have to lead to something. -/
def walk (fs : FileSystem) (place : List String) : List String → Except FileError (List String)
  | [] => .ok place
  | name :: names => do
    let next ← fs.step place name
    if (fs.node? next).isNone then throw .notFound
    fs.walk next names

/-- Where a path starts. -/
def startOf (fs : FileSystem) (path : String) : List String :=
  if Path.isAbsolute path then [] else fs.workingDirectory

/-- Checks that a text can be a path. -/
def checkPath (path : String) : Except FileError Unit :=
  if path.toList.contains (Char.ofNat 0) then .error .nul
  else if path = "" then .error .notFound
  else if path.utf8ByteSize > maxPath then .error .nameTooLong
  else .ok ()

/-- The place of a path that has to lead to something. A slash at its end says that it leads to a
directory. -/
def locate (fs : FileSystem) (path : String) : Except FileError (List String) := do
  checkPath path
  let names := Path.names path ++ (if Path.endsInSlash path then ["."] else [])
  fs.walk (fs.startOf path) names

/-- The place of a path that may not lead to anything yet, with its last name. -/
def locateNew (fs : FileSystem) (path : String) :
    Except FileError (Option String × List String) := do
  checkPath path
  match (Path.names path).reverse with
  | [] => return (none, [])
  | last :: before =>
    let place ← fs.step (← fs.walk (fs.startOf path) before.reverse) last
    return (if last = "." ∨ last = ".." then none else some last, place)

/-- The text of the file at a path. -/
def read (fs : FileSystem) (path : String) : Except FileError String := do
  match fs.node? (← fs.locate path) with
  | some (.file text) => return text
  | some .directory => throw .isDirectory
  | none => throw .notFound

/-- Whether a path leads to a directory. -/
def isDirectory (fs : FileSystem) (path : String) : Bool :=
  match fs.locate path with
  | .ok place => fs.isDirectoryAt place
  | .error _ => false

/-- Writes a text to the file at a path. -/
def write (fs : FileSystem) (path text : String) : Except FileError FileSystem := do
  let (last, place) ← fs.locateNew path
  if last.isNone ∨ Path.endsInSlash path ∨ fs.isDirectoryAt place then throw .isDirectory
  return fs.put place (.file text)

/-- Makes the directory at a path. -/
def makeOne (fs : FileSystem) (path : String) : Except FileError FileSystem := do
  let (last, place) ← fs.locateNew path
  if last.isNone ∨ (fs.node? place).isSome then throw .alreadyExists
  return fs.put place .directory

/-- The files of a file system that is a state. A failed operation changes nothing. -/
def access : FileAccess (StateM FileSystem) where
  read path := fun fs => (fs.read path, fs)
  write path text := fun fs =>
    match fs.write path text with
    | .ok written => (.ok (), written)
    | .error e => (.error e, fs)
  make path := fun fs =>
    match fs.makeOne path with
    | .ok made => (.ok (), made)
    | .error e => (.error e, fs)
  isDirectory path := fun fs => (fs.isDirectory path, fs)

/-- The files below the working directory, by relative path. -/
def files (fs : FileSystem) : List (String × String) :=
  fs.entries.filterMap fun (place, node) =>
    match node, fs.workingDirectory.isPrefixOf place with
    | .file text, true => some ("/".intercalate (place.drop fs.workingDirectory.length), text)
    | _, _ => none

/-- Puts a directory at a place, and at all places above it. -/
def putDirectory (fs : FileSystem) (place : List String) : FileSystem :=
  (List.range place.length).foldl (fun fs n => fs.put (place.take (n + 1)) .directory) fs

/-- A file system with files below a working directory, by relative path. -/
def ofFiles (workingDirectory : List String) (files : List (String × String)) : FileSystem :=
  files.foldl (fun fs (path, text) =>
      let place := workingDirectory ++ Path.names path
      (fs.putDirectory place.dropLast).put place (.file text))
    (putDirectory ⟨workingDirectory, []⟩ workingDirectory)

end FileSystem

end ContractAbi
