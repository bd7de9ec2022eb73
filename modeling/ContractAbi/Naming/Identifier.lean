import ContractAbi.Text.Ascii

/-!
# Identifiers of generated code

How the names of a description become names of generated code. Characters that no identifier may
hold become underscores; a name that the language has taken is written in its raw form `r#name`, or
gets an underscore where it has no raw form.
-/

namespace ContractAbi.Naming

open Text

/-- The words that can be written in raw form only. -/
def keywords : List String :=
  ["abstract", "as", "async", "await", "become", "box", "break", "const", "continue", "do",
    "dyn", "else", "enum", "extern", "false", "final", "fn", "for", "gen", "if", "impl", "in",
    "let", "loop", "macro", "match", "mod", "move", "mut", "override", "priv", "pub", "ref",
    "return", "static", "struct", "trait", "true", "try", "type", "typeof", "union", "unsafe",
    "unsized", "use", "virtual", "where", "while", "yield"]

/-- The words that have no raw form. -/
def bareKeywords : List String := ["self", "Self", "super", "crate", "_"]

/-- The name with an underscore for every character that an identifier may not hold, and before a
digit that it starts with. -/
def sanitize (name : String) : List Char :=
  match name.toList.map fun c => if isWordChar c then c else '_' with
  | [] => []
  | c :: cs => if c.isDigit then '_' :: c :: cs else c :: cs

/-- The mark of a raw identifier. -/
def rawMark : List Char := "r#".toList

/-- An identifier without the raw marks that it starts with. -/
def dropRaw : List Char → List Char
  | 'r' :: '#' :: rest => dropRaw rest
  | cs => cs

/-- `dropRaw` on strings. -/
def plain (ident : String) : String := String.ofList (dropRaw ident.toList)

/-- The identifier for a name. -/
def identifier (name : String) : String :=
  let ident := String.ofList (sanitize name)
  if ident = "" then "value"
  else if ident ∈ bareKeywords then ident ++ "_"
  else if ident ∈ keywords then String.ofList (rawMark ++ ident.toList)
  else ident

/-- The identifier for a name without a raw mark, as part of a longer identifier. -/
def identifierPart (name : String) : String := plain (identifier name)

/-- The text without its underscores, with a capital letter behind each of them, and at the start if
`capital` is set. -/
def joinWords (capital : Bool) : List Char → List Char
  | [] => []
  | c :: cs =>
    if c = '_' then joinWords true cs
    else (if capital then c.toUpper else c) :: joinWords false cs

/-- The type name for a name: its words, each with a capital letter, without the underscores. -/
def typeName (name : String) : String :=
  match joinWords true (sanitize name) with
  | [] => "T"
  | c :: cs =>
    if c.isDigit then String.ofList ('T' :: c :: cs)
    else if c :: cs = "Self".toList then "Self_"
    else String.ofList (c :: cs)

/-- The modules that stand beside those of the interfaces, and the index of all modules. -/
def fixedModules : List String := ["messages", "registry", "mod"]

/-- The module name for an interface. -/
def moduleName (interface : String) : String :=
  let ident := identifier (lowerCase interface)
  if plain ident ∈ fixedModules then plain ident ++ "_binding" else ident

/-- The name of the file that holds a module. -/
def fileName (module : String) : String := plain module ++ ".rs"

end ContractAbi.Naming
