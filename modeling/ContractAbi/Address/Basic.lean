import ContractAbi.Text.Blank
import ContractAbi.Text.Decimal
import ContractAbi.Text.Hex

/-!
# Addresses

An address is a workchain number and a hash of 32 bytes. It has two text forms: the raw form
`workchain:hash` with the hash in hexadecimal, and the friendly form of 48 characters, which also
carries two flags and a checksum.
-/

namespace ContractAbi

/-- The address of a contract. -/
structure Address where
  workchain : Int8
  hash : List UInt8
  length_hash : hash.length = 32
  deriving DecidableEq

namespace Address

/-- The size of an address in a cell: two tag bits, a bit for the absent rewriting rule, the
workchain and the hash. -/
def bitLength : Nat := 2 + 1 + 8 + 256

/-- The address with this hash, if it has the right length. -/
def ofHash? (workchain : Int8) (hash : List UInt8) : Option Address :=
  if h : hash.length = 32 then some ⟨workchain, hash, h⟩ else none

/-- The address of zeros, which stands in where an address is needed but none is known. -/
def zero : Address := ⟨0, List.replicate 32 0, by simp⟩

instance : Inhabited Address := ⟨zero⟩

/-- The order of addresses: by workchain number, then by hash. -/
def le (a b : Address) : Bool :=
  if a.workchain = b.workchain then decide (a.hash ≤ b.hash) else decide (a.workchain < b.workchain)

/-- Why a text or a cell is no address. -/
inductive Fault where
  | invalidRaw (text : String)
  | invalidFriendly (text : String)
  | checksum (text : String)
  | notStandard
  deriving DecidableEq

/-- What is reported for a fault. -/
def Fault.message : Fault → String
  | .invalidRaw text => "invalid raw address '" ++ text ++ "'"
  | .invalidFriendly text => "invalid user-friendly address '" ++ text ++ "'"
  | .checksum text => "checksum mismatch in '" ++ text ++ "'"
  | .notStandard => "cell does not start with a standard address"

/-- The raw form. -/
def raw (a : Address) : String := toString a.workchain.toInt ++ ":" ++ Text.Hex.encode a.hash

/-- Reads the raw form from characters. -/
def ofRawChars? (cs : List Char) : Option Address := do
  match cs.dropWhile (· != ':') with
  | [] => none
  | _ :: digits =>
    let workchain ← Text.Decimal.integer? (-128) 127 (cs.takeWhile (· != ':'))
    ofHash? (Int8.ofInt workchain) (← Text.Hex.decode digits)

/-- Reads the raw form. -/
def ofRaw (text : String) : Except Fault Address :=
  match ofRawChars? text.toList with
  | some a => .ok a
  | none => .error (.invalidRaw text)

end Address

end ContractAbi
