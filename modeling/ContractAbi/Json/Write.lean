import ContractAbi.Json.Basic
import ContractAbi.Text.Ascii

/-!
# Writing JSON

Two layouts: `compact` has no white space at all, `pretty` puts every item and member on a line of
its own, two spaces deeper than the bracket that opens it. In both, strings escape the quote, the
backslash and the control characters below the space, and nothing else.
-/

namespace ContractAbi.Json

/-- A character inside a string literal. -/
def escapeChar (c : Char) : List Char :=
  match c with
  | '"' => ['\\', '"']
  | '\\' => ['\\', '\\']
  | '\n' => ['\\', 'n']
  | '\r' => ['\\', 'r']
  | '\t' => ['\\', 't']
  | c =>
    if c.toNat = 8 then ['\\', 'b']
    else if c.toNat = 12 then ['\\', 'f']
    else if c.toNat < 0x20 then
      ['\\', 'u', '0', '0', Text.hexDigit (c.toNat / 16), Text.hexDigit (c.toNat % 16)]
    else [c]

/-- A string literal with its quotes. -/
def quote (s : String) : String :=
  String.ofList ('"' :: s.toList.flatMap escapeChar ++ ['"'])

/-- A line break and the indentation of the line behind it. -/
def lineBreak (depth : Nat) : String := "\n" ++ String.ofList (List.replicate (2 * depth) ' ')

mutual

/-- The value without white space. -/
def compact : Json → String
  | .null => "null"
  | .bool b => if b then "true" else "false"
  | .integer n => toString n
  | .fraction text => text
  | .hugeNumber text => text
  | .string s => quote s
  | .broken => "\"\\ufffd\""
  | .array items => "[" ++ ",".intercalate (compactItems items) ++ "]"
  | .object fields => "\x7b" ++ ",".intercalate (compactFields fields) ++ "\x7d"

/-- `compact` of each item of an array. -/
def compactItems : List Json → List String
  | [] => []
  | v :: vs => compact v :: compactItems vs

/-- `compact` of each member of an object. -/
def compactFields : List (String × Json) → List String
  | [] => []
  | (k, v) :: fs => (quote k ++ ":" ++ compact v) :: compactFields fs

end

mutual

/-- The value over several lines, where `depth` is how deep its last line is indented. -/
def prettyAt (depth : Nat) : Json → String
  | .array items =>
    if items.isEmpty then "[]"
    else "[" ++ ",".intercalate (prettyItems (depth + 1) items) ++ lineBreak depth ++ "]"
  | .object fields =>
    if fields.isEmpty then "\x7b\x7d"
    else "\x7b" ++ ",".intercalate (prettyFields (depth + 1) fields) ++ lineBreak depth ++ "\x7d"
  | v => compact v

/-- `prettyAt` of each item of an array, on a line of its own. -/
def prettyItems (depth : Nat) : List Json → List String
  | [] => []
  | v :: vs => (lineBreak depth ++ prettyAt depth v) :: prettyItems depth vs

/-- `prettyAt` of each member of an object, on a line of its own. -/
def prettyFields (depth : Nat) : List (String × Json) → List String
  | [] => []
  | (k, v) :: fs =>
    (lineBreak depth ++ quote k ++ ": " ++ prettyAt depth v) :: prettyFields depth fs

end

/-- The value over several lines. -/
def pretty (v : Json) : String := prettyAt 0 v

end ContractAbi.Json
