import ContractAbi.Text.Ascii
import ContractAbi.Text.Printable

/-!
# Quoted texts

A text as a string literal: between double quotes, with a backslash before what would end or change
the literal, and by number where a character has no form of its own.
-/

namespace ContractAbi.Text.Quoted

/-- A character inside a literal. -/
def encodeChar (c : Char) : List Char :=
  if c = '"' then ['\\', '"']
  else if c = '\\' then ['\\', '\\']
  else if c = '\t' then ['\\', 't']
  else if c = '\r' then ['\\', 'r']
  else if c = '\n' then ['\\', 'n']
  else if c.toNat = 0 then ['\\', '0']
  else if isInvisible c || isCombining c then
    ['\\', 'u', '\x7b'] ++ hexDigits c.toNat ++ ['\x7d']
  else [c]

/-- The characters between the quotes. -/
def encode (cs : List Char) : List Char := cs.flatMap encodeChar

/-- A text as a string literal. -/
def quote (text : String) : String := String.ofList ('"' :: encode text.toList ++ ['"'])

end ContractAbi.Text.Quoted
