/-!
# Lines of code

Generated code is a list of lines, some of which open or close a block. Writing the list out indents
every line by the blocks that are open around it.
-/

namespace ContractAbi.Code

/-- A line of code. -/
inductive Line where
  | text (content : String)
  /-- A line that opens a block. -/
  | opening (header : String)
  /-- A line that closes a block, with what follows the closing brace. -/
  | closing (suffix : String)
  deriving DecidableEq

/-- The empty line. -/
def blank : Line := .text ""

/-- A block with its lines. -/
def block (header : String) (body : List Line) (suffix : String) : List Line :=
  .opening header :: body ++ [.closing suffix]

/-- Blocks or items, each behind an empty line. -/
def spaced (items : List (List Line)) : List Line := items.flatMap (blank :: ·)

namespace Line

/-- How many blocks are open before a line is written: closing a block where none is open changes
nothing. -/
def depthAt (depth : Nat) : Line → Nat
  | .closing _ => depth - 1
  | _ => depth

/-- How many blocks are open behind a line. -/
def depthAfter (depth : Nat) : Line → Nat
  | .text _ => depth
  | .opening _ => depth + 1
  | .closing _ => depth - 1

/-- What a line says. -/
def content : Line → String
  | .text content => content
  | .opening header => header ++ " \x7b"
  | .closing suffix => "\x7d" ++ suffix

end Line

/-- A line at a depth of four blanks each. The empty line is never indented. -/
def indented (depth : Nat) (content : String) : String :=
  if content = "" then "" else String.ofList (List.replicate (4 * depth) ' ') ++ content

/-- The lines as they are written at a depth, each without its line end. -/
def layout (depth : Nat) : List Line → List String
  | [] => []
  | l :: ls => indented (l.depthAt depth) l.content :: layout (l.depthAfter depth) ls

/-- The text of a list of lines. -/
def render (lines : List Line) : String := String.join ((layout 0 lines).map (· ++ "\n"))

/-- Cuts a text at its line ends. A carriage return before a line end belongs to the line end.
`line` holds the characters of the line that is open, the last one first. -/
def splitLines (line : List Char) : List Char → List (List Char)
  | [] => if line = [] then [] else [line.reverse]
  | '\n' :: cs =>
    match line with
    | '\r' :: before => before.reverse :: splitLines [] cs
    | _ => line.reverse :: splitLines [] cs
  | c :: cs => splitLines (c :: line) cs

/-- The lines of a text. -/
def linesOf (text : String) : List String := (splitLines [] text.toList).map String.ofList

end ContractAbi.Code
