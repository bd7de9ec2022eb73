/-!
# Characters and names in XML

Which characters may stand in a document, in a name and at the start of a name, and names with an
optional namespace qualifier.
-/

namespace ContractAbi.Xml

/-- White space between the parts of a tag. -/
def isSpace (c : Char) : Bool := c == ' ' || c == '\n' || c == '\t' || c == '\r'

/-- A character that a document may contain. -/
def isAllowed (c : Char) : Bool :=
  if c.toNat < 0x20 then isSpace c else c.toNat != 0xFFFE && c.toNat != 0xFFFF

/-- The letters beyond ASCII that may start a name, as ranges of code points. -/
def letterRanges : List (Nat × Nat) :=
  [(0xC0, 0xD6), (0xD8, 0xF6), (0xF8, 0x2FF), (0x370, 0x37D), (0x37F, 0x1FFF), (0x200C, 0x200D),
    (0x2070, 0x218F), (0x2C00, 0x2FEF), (0x3001, 0xD7FF), (0xF900, 0xFDCF), (0xFDF0, 0xFFFD),
    (0x10000, 0xEFFFF)]

/-- What may follow in a name besides, beyond ASCII. -/
def extenderRanges : List (Nat × Nat) := [(0xB7, 0xB7), (0x300, 0x36F), (0x203F, 0x2040)]

/-- Whether one of the ranges holds the code point. -/
def inRanges (ranges : List (Nat × Nat)) (n : Nat) : Bool :=
  ranges.any fun (low, high) => low ≤ n && n ≤ high

/-- A character that may start a name. -/
def isNameStart (c : Char) : Bool :=
  c.isAlpha || c == ':' || c == '_' || inRanges letterRanges c.toNat

/-- A character that may stand in a name. -/
def isNameChar (c : Char) : Bool :=
  isNameStart c || c.isDigit || c == '-' || c == '.' || inRanges extenderRanges c.toNat

/-- A name with the qualifier before its colon; the qualifier is empty if there is none. -/
structure Name where
  qualifier : List Char
  base : List Char
  deriving DecidableEq

/-- The text behind the white space it starts with. -/
def skipSpace (cs : List Char) : List Char := cs.dropWhile isSpace

/-- Whether the first character may start a name. -/
def startsName (cs : List Char) : Bool := cs.head?.any isNameStart

/-- Reads a name without regard to colons. -/
def readPlainName (cs : List Char) : Option (List Char × List Char) :=
  if startsName cs then some (cs.takeWhile isNameChar, cs.dropWhile isNameChar) else none

/-- Reads a name, which may hold one colon. -/
def readName (cs : List Char) : Option (Name × List Char) :=
  let whole := cs.takeWhile isNameChar
  let rest := cs.dropWhile isNameChar
  let name : Name :=
    match whole.dropWhile (· != ':') with
    | [] => ⟨[], whole⟩
    | _ :: base => ⟨whole.takeWhile (· != ':'), base⟩
  if name.base.contains ':' then none
  else if !startsName name.base then none
  else if name.qualifier != [] && !startsName name.qualifier then none
  else some (name, rest)

end ContractAbi.Xml
