/-!
# Bit sequences

Bits are written most significant first. The module holds the two readings of a bit sequence as a
number, unsigned and in two's complement, the bits of a number in a given width, and the packing of
bits into bytes.
-/

namespace ContractAbi.Bits

/-- The least number that does not fit in `width` bits. -/
def limit (width : Nat) : Nat := Nat.pow 2 width

/-- The number that the bits stand for. -/
def toNat (bits : List Bool) : Nat := bits.foldl (fun n b => 2 * n + b.toNat) 0

/-- The lowest `width` bits of a number. -/
def ofNat (width n : Nat) : List Bool :=
  match width with
  | 0 => []
  | width + 1 => n.testBit width :: ofNat width n

@[simp] theorem length_ofNat (width n : Nat) : (ofNat width n).length = width := by
  induction width with
  | zero => rfl
  | succ width ih => simp [ofNat, ih]

/-- The number that the bits stand for in two's complement. -/
def toInt (bits : List Bool) : Int :=
  match bits with
  | true :: _ => (toNat bits : Int) - limit bits.length
  | bits => toNat bits

/-- The lowest `width` bits of a number in two's complement. -/
def ofInt (width : Nat) (v : Int) : List Bool := ofNat width (v % limit width).toNat

/-- How many bits a number takes. -/
def size (n : Nat) : Nat := if n = 0 then 0 else n.log2 + 1

/-- How many bytes a number takes. -/
def byteSize (n : Nat) : Nat := (size n + 7) / 8

/-- The bits of a byte sequence. -/
def ofBytes (bytes : List UInt8) : List Bool := bytes.flatMap fun b => ofNat 8 b.toNat

@[simp] theorem length_ofBytes (bytes : List UInt8) :
    (ofBytes bytes).length = 8 * bytes.length := by
  induction bytes with
  | nil => rfl
  | cons b bytes ih =>
    have : ofBytes (b :: bytes) = ofNat 8 b.toNat ++ ofBytes bytes := rfl
    rw [this, List.length_append, ih]
    simp
    omega

/-- Bits packed into bytes. The last byte is filled up with zeros. -/
def pack (bits : List Bool) : List UInt8 :=
  match bits with
  | [] => []
  | b :: bs =>
    let first := (b :: bs).take 8
    UInt8.ofNat (toNat (first ++ List.replicate (8 - first.length) false)) ::
      pack ((b :: bs).drop 8)
termination_by bits.length
decreasing_by
  simp only [List.length_drop, List.length_cons]
  omega

end ContractAbi.Bits
