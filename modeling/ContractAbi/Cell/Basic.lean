import ContractAbi.Cell.Bits
import ContractAbi.Cell.Sha256
import ContractAbi.Text.Hex

/-!
# Cells

A cell holds up to 1023 bits and up to four references to other cells. Cells are finished by
builders, and these carry the limits. The identity of a cell is its representation hash: the SHA-256
hash of a descriptor of its size, its data, and the depths and hashes of its references.
-/

namespace ContractAbi

/-- A tree of bit sequences. -/
structure Cell where
  bits : List Bool
  refs : List Cell
  deriving Inhabited

namespace Cell

/-- The most bits a cell may hold. -/
def maxBits : Nat := 1023

/-- The most references a cell may hold. -/
def maxRefs : Nat := 4

/-- The cell without data and references. -/
def empty : Cell := ⟨[], []⟩

/-- How many bits the cell holds. -/
def bitLength (c : Cell) : Nat := c.bits.length

/-- The data packed into bytes, the last one filled up with zeros. -/
def data (c : Cell) : List UInt8 := Bits.pack c.bits

/-- The data packed into bytes, where a last byte that is not full is filled up with a one and
zeros. -/
def completed (bits : List Bool) : List UInt8 :=
  Bits.pack (if bits.length % 8 = 0 then bits else bits ++ [true])

/-- What the hash of a cell needs to know of a reference. The depth is counted in 16 bits. -/
structure Digest where
  depth : UInt16
  hash : List UInt8
  deriving DecidableEq

/-- The depth of a cell with these references. -/
def depthOver (refs : List Digest) : UInt16 :=
  refs.foldl (fun d r => max d (r.depth + 1)) 0

/-- The bytes that are hashed for a cell. -/
def representation (bits : List Bool) (refs : List Digest) : List UInt8 :=
  [UInt8.ofNat refs.length, UInt8.ofNat (bits.length / 8 + (bits.length + 7) / 8)] ++
    completed bits ++
    (refs.flatMap fun r => [UInt8.ofNat (r.depth.toNat / 256), UInt8.ofNat r.depth.toNat]) ++
    refs.flatMap (·.hash)

/-- The digest of a cell with these references. -/
def digestOver (bits : List Bool) (refs : List Digest) : Digest :=
  ⟨depthOver refs, Sha256.hash (representation bits refs)⟩

mutual

/-- The depth and the hash of a cell. -/
def digest : Cell → Digest
  | ⟨bits, refs⟩ => digestOver bits (digests refs)

/-- The digests of cells in order. -/
def digests : List Cell → List Digest
  | [] => []
  | c :: cs => digest c :: digests cs

end

/-- How many references lead down from the cell, counted in 16 bits. -/
def depth (c : Cell) : UInt16 := c.digest.depth

/-- The representation hash. -/
def hash (c : Cell) : List UInt8 := c.digest.hash

/-- The representation hash in hexadecimal. -/
def hashHex (c : Cell) : String := Text.Hex.encode c.hash

/-- Whether two cells have the same hash. -/
def same (a b : Cell) : Bool := a.hash == b.hash

/-- The bit at a position. -/
def bit? (c : Cell) (index : Nat) : Option Bool := c.bits[index]?

/-- The unsigned number in `width` bits from `offset` on, for widths up to 64. -/
def readU64? (c : Cell) (offset width : Nat) : Option Nat :=
  if width > 64 ∨ offset + width > c.bitLength then none
  else some (Bits.toNat ((c.bits.drop offset).take width))

/-- The reference at a position. -/
def ref? (c : Cell) (index : Nat) : Option Cell := c.refs[index]?

mutual

/-- The bytes of a text that runs through first references: the data of this cell, then of its
first reference, and so on. There are none if a cell on the way does not hold whole bytes. -/
def snakeBytes? : Cell → Option (List UInt8)
  | ⟨bits, refs⟩ =>
    if bits.length % 8 = 0 then (tailBytes? refs).map (Bits.pack bits ++ ·) else none

/-- `snakeBytes?` of the first cell, if there is one. -/
def tailBytes? : List Cell → Option (List UInt8)
  | [] => some []
  | c :: _ => snakeBytes? c

end

/-- How many bytes of a text a cell of a chain holds. -/
def chunkSize : Nat := 127

/-- A chain of cells that holds the bytes, 127 in each but the last. -/
def snake (bytes : List UInt8) : Cell :=
  if bytes.length ≤ chunkSize then ⟨Bits.ofBytes bytes, []⟩
  else ⟨Bits.ofBytes (bytes.take chunkSize), [snake (bytes.drop chunkSize)]⟩
termination_by bytes.length
decreasing_by simp [chunkSize] at *; omega

/-- A cell in words. -/
def describe (c : Cell) : String :=
  "Cell \x7b bits: " ++ toString c.bitLength ++ ", data: \"" ++ Text.Hex.encode c.data ++
    "\", refs: " ++ toString c.refs.length ++ ", hash: \"" ++ c.hashHex ++ "\" \x7d"

end Cell

/-- Why a cell cannot be written or read further. -/
inductive CellError where
  | bitOverflow (requested available : Nat)
  | refOverflow
  | valueOutOfRange (bits : Nat)
  | invalidWidth (bits : Nat)
  | varUIntOverflow (length bound : Nat)
  | underflow (requested available : Nat)
  | refUnderflow
  | opcodeMismatch (expected found : Nat)
  | invalidAddress
  | notByteAligned
  | invalidUtf8
  deriving DecidableEq

/-- What is reported for an error. -/
def CellError.message : CellError → String
  | .bitOverflow requested available =>
    "cell overflow: " ++ toString requested ++ " bits requested, " ++ toString available ++
      " available"
  | .refOverflow => "cell overflow: no more than 4 references per cell"
  | .valueOutOfRange bits => "value does not fit in " ++ toString bits ++ " bits"
  | .invalidWidth bits => "invalid bit width " ++ toString bits
  | .varUIntOverflow length bound =>
    "variable-length integer needs " ++ toString length ++ " bytes but the bound is " ++
      toString bound
  | .underflow requested available =>
    "cell underflow: " ++ toString requested ++ " bits requested, " ++ toString available ++ " left"
  | .refUnderflow => "cell underflow: no references left"
  | .opcodeMismatch expected found =>
    "opcode mismatch: expected 0x" ++ String.ofList (Text.hexDigits expected) ++ ", found 0x" ++
      String.ofList (Text.hexDigits found)
  | .invalidAddress => "not a standard address"
  | .notByteAligned => "text is not byte-aligned"
  | .invalidUtf8 => "text is not valid UTF-8"

end ContractAbi
