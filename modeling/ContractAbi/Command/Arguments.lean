/-!
# Command line arguments

How the arguments of a call are read. Options and operands may be mixed; after `--` everything is an
operand. No option may be given twice, and a value may not look like an option. The first argument
that is wrong, or that asks for help or the version, ends the reading.
-/

namespace ContractAbi.Command

/-- What can be done. -/
inductive Task where
  | generate (source : String) (output : Option String) (dump : Bool)
  | inspect (source : String)
  | order (source : String)
  | batch (config : String) (dump : Bool)
  deriving DecidableEq

/-- What a call asks for. -/
inductive Request where
  | run (task : Task) (json : Bool)
  | help
  | version
  | misuse
  deriving DecidableEq

/-- Why the reading of arguments ended early. -/
inductive Stop where
  | help
  | version
  | misuse
  deriving DecidableEq

/-- The request of arguments whose reading ended early. -/
def Stop.request : Stop → Request
  | .help => .help
  | .version => .version
  | .misuse => .misuse

/-- The names of the tasks. -/
inductive TaskName where
  | generate
  | inspect
  | order
  | batch
  deriving DecidableEq

namespace TaskName

/-- The task of a name. -/
def ofText? : String → Option TaskName
  | "generate" => some .generate
  | "inspect" => some .inspect
  | "order" => some .order
  | "batch" => some .batch
  | _ => none

/-- Whether the task takes an output directory. -/
def hasOutput (t : TaskName) : Bool := t == .generate

/-- Whether the task can write a dump. -/
def hasDump (t : TaskName) : Bool := t == .generate || t == .batch

/-- Whether the operand of the task is a path, which may not be empty. -/
def needsPath (t : TaskName) : Bool := t == .batch

end TaskName

/-- The arguments read so far. -/
structure Options where
  json : Bool
  dump : Bool
  output : Option String
  operand : Option String
  deriving DecidableEq

namespace Options

/-- No arguments. -/
def empty : Options := ⟨false, false, none, none⟩

/-- Takes the output form. -/
def setJson (o : Options) : Except Stop Options :=
  if o.json then .error .misuse else .ok { o with json := true }

/-- Takes the wish for a dump. -/
def setDump (t : TaskName) (o : Options) : Except Stop Options :=
  if t.hasDump && !o.dump then .ok { o with dump := true } else .error .misuse

/-- Takes the output directory. -/
def setOutput (t : TaskName) (directory : String) (o : Options) : Except Stop Options :=
  if t.hasOutput && o.output.isNone && directory != "" then
    .ok { o with output := some directory }
  else .error .misuse

/-- Takes an operand; every task has one. -/
def setOperand (t : TaskName) (operand : String) (o : Options) : Except Stop Options :=
  if o.operand.isNone && !(t.needsPath && operand == "") then
    .ok { o with operand := some operand }
  else .error .misuse

end Options

/-- An argument by its form. -/
inductive Argument where
  /-- The mark behind which all arguments are operands. -/
  | mark
  /-- `--name` or `--name=value` -/
  | long (name : String) (value : Option String)
  /-- `-x` with what follows the letter. -/
  | short (letter : Char) (rest : List Char)
  | operand (text : String)
  deriving DecidableEq

namespace Argument

/-- The form of an argument. -/
def ofText (text : String) : Argument :=
  match text.toList with
  | ['-', '-'] => .mark
  | '-' :: '-' :: cs =>
    let name := String.ofList (cs.takeWhile (· != '='))
    match cs.dropWhile (· != '=') with
    | [] => .long name none
    | _ :: value => .long name (some (String.ofList value))
  | '-' :: c :: cs => .short c cs
  | _ => .operand text

/-- Whether the argument can be the value of an option. -/
def isOperand : Argument → Bool
  | .operand _ => true
  | _ => false

end Argument

/-- Reads arguments of which all are operands. -/
def readOperands (t : TaskName) (o : Options) : List String → Except Stop Options
  | [] => .ok o
  | a :: rest => do readOperands t (← o.setOperand t a) rest

/-- The value behind the letter of an option, if there is one. -/
def attached? : List Char → Option String
  | [] => none
  | '=' :: cs => some (String.ofList cs)
  | cs => some (String.ofList cs)

/-- Reads the arguments of a task. -/
def readOptions (t : TaskName) (o : Options) : List String → Except Stop Options
  | [] => .ok o
  | a :: rest =>
    match Argument.ofText a with
    | .mark => readOperands t o rest
    | .operand text => do readOptions t (← o.setOperand t text) rest
    | .long "help" none => .error .help
    | .long "json" none => do readOptions t (← o.setJson) rest
    | .long "dump-ir" none => do readOptions t (← o.setDump t) rest
    | .long "output" (some value) => do readOptions t (← o.setOutput t value) rest
    | .long "output" none =>
      match rest with
      | value :: rest =>
        if (Argument.ofText value).isOperand then do
          readOptions t (← o.setOutput t value) rest
        else .error .misuse
      | [] => .error .misuse
    | .short 'h' _ => .error .help
    | .short 'o' following =>
      match attached? following, rest with
      | some value, rest => do readOptions t (← o.setOutput t value) rest
      | none, value :: rest =>
        if (Argument.ofText value).isOperand then do
          readOptions t (← o.setOutput t value) rest
        else .error .misuse
      | none, [] => .error .misuse
    | _ => .error .misuse

/-- The task with its arguments, if its operand is there. -/
def taskOf? (t : TaskName) (o : Options) : Option Task :=
  o.operand.map fun operand =>
    match t with
    | .generate => .generate operand o.output o.dump
    | .inspect => .inspect operand
    | .order => .order operand
    | .batch => .batch operand o.dump

/-- The request of a task and its arguments. -/
def readTask (json : Bool) (t : TaskName) (args : List String) : Request :=
  match readOptions t .empty args with
  | .error stop => stop.request
  | .ok o =>
    match taskOf? t o with
    | some task => .run task (json || o.json)
    | none => .misuse

/-- Whether help on a task, or on help, is asked for. -/
def isTopic (name : String) : Bool := name == "help" || (TaskName.ofText? name).isSome

/-- The request for help on something. -/
def readTopic : List String → Request
  | [] => .help
  | [name] => if isTopic name then .help else .misuse
  | _ => .misuse

/-- Reads the arguments up to the name of the task. -/
def readRequest (json : Bool) : List String → Request
  | [] => .misuse
  | a :: rest =>
    match Argument.ofText a with
    | .long "help" none | .short 'h' _ => .help
    | .long "version" none | .short 'V' _ => .version
    | .long "json" none => if json then .misuse else readRequest true rest
    | .operand "help" => readTopic rest
    | .operand name =>
      match TaskName.ofText? name with
      | some t => readTask json t rest
      | none => .misuse
    | _ => .misuse

/-- The request of a call. -/
def Request.ofArguments (args : List String) : Request := readRequest false args

end ContractAbi.Command
