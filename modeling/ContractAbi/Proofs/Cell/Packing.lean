import Mathlib.Data.Nat.Bitwise
import ContractAbi.Cell.BitsLemmas
import ContractAbi.Cell.Buffer

/-!
# Bytes hold the bits that were written

Bits that are packed into bytes stand there in order, with zeros behind them (`ofBytes_pack`), and
so do bits that are written one at a time (`Buffer.holds_pushAll`). What stands at a position of the
bytes is read off `getElem?_ofBytes`.
-/

namespace ContractAbi.Bits

theorem toNat_mask {place : Nat} (inside : place < 8) : (mask place).toNat = 2 ^ (7 - place) := by
  match place with
  | 0 | 1 | 2 | 3 | 4 | 5 | 6 | 7 => rfl
  | n + 8 => omega

/-- The bit at a place of a byte is a bit of its number, counted from the other end. -/
theorem isSet_eq_testBit (byte : UInt8) {place : Nat} (inside : place < 8) :
    isSet byte place = byte.toNat.testBit (7 - place) := by
  have bits : (byte &&& mask place).toNat =
      (byte.toNat.testBit (7 - place)).toNat * 2 ^ (7 - place) := by
    rw [UInt8.toNat_and, toNat_mask inside, Nat.and_two_pow]
  have zero : byte &&& mask place = 0 ↔ (byte &&& mask place).toNat = 0 := by
    rw [← UInt8.toNat_inj]
    rfl
  rw [isSet, bne, Bool.not_eq_eq_eq_not, Bool.eq_iff_iff, beq_iff_eq, zero, bits]
  cases byte.toNat.testBit (7 - place) <;> simp

/-- The bits of a number stand from the highest to the lowest. -/
theorem getElem?_ofNat (width n i : Nat) :
    (ofNat width n)[i]? = if i < width then some (n.testBit (width - 1 - i)) else none := by
  induction width generalizing i with
  | zero => simp [ofNat]
  | succ width ih =>
    cases i with
    | zero => simp [ofNat]
    | succ i =>
      rw [ofNat, List.getElem?_cons_succ, ih]
      have shift : width + 1 - 1 - (i + 1) = width - 1 - i := by omega
      rw [shift]
      simp only [Nat.add_lt_add_iff_right]

/-- The high bits of a number stand in front of its low ones. -/
theorem ofNat_append (high low n : Nat) :
    ofNat (high + low) n = ofNat high (n / 2 ^ low) ++ ofNat low n := by
  induction high with
  | zero => simp [ofNat]
  | succ high ih =>
    have top : (n / 2 ^ low).testBit high = n.testBit (high + low) := by
      rw [Nat.testBit_div_two_pow, Nat.add_comm]
    rw [Nat.add_right_comm, ofNat, ih, ofNat, top, List.cons_append]

/-- A byte holds the lowest eight bits of a number. -/
theorem ofNat_toNat_ofNat (n : Nat) : ofNat 8 (UInt8.ofNat n).toNat = ofNat 8 n := by
  apply ofNat_congr
  simp

theorem ofBytes_append (xs ys : List UInt8) : ofBytes (xs ++ ys) = ofBytes xs ++ ofBytes ys :=
  List.flatMap_append

/-- Eight bits stand in each byte. -/
theorem getElem?_ofBytes (data : List UInt8) (i : Nat) :
    (ofBytes data)[i]? = data[i / 8]?.map fun byte => isSet byte (i % 8) := by
  induction data generalizing i with
  | nil => simp [ofBytes]
  | cons byte data ih =>
    rw [ofBytes_cons]
    by_cases first : i < 8
    · have here : i / 8 = 0 := by omega
      have place : i % 8 = i := by omega
      rw [List.getElem?_append_left (by simpa using first), getElem?_ofNat, if_pos first, here,
        place, List.getElem?_cons_zero, Option.map_some, isSet_eq_testBit byte first]
    · have later : i / 8 = (i - 8) / 8 + 1 := by omega
      have place : (i - 8) % 8 = i % 8 := by omega
      rw [List.getElem?_append_right (by simpa using first), length_ofNat, ih, later,
        List.getElem?_cons_succ, place]

/-- Setting a bit of a byte sets it among the bits. -/
theorem ofNat_or_mask (byte : UInt8) {place : Nat} (inside : place < 8) :
    ofNat 8 (byte ||| mask place).toNat = (ofNat 8 byte.toNat).set place true := by
  apply List.ext_getElem?
  intro i
  rw [List.getElem?_set, getElem?_ofNat, getElem?_ofNat, UInt8.toNat_or, toNat_mask inside,
    length_ofNat, Nat.testBit_or, Nat.testBit_two_pow]
  by_cases same : place = i
  · simp [same]
  · have apart : ¬ (7 - place = 8 - 1 - i ∧ i < 8) := by omega
    by_cases within : i < 8
    · simp [same, within, show ¬ 7 - place = 7 - i by omega]
    · simp [same, within]

/-- Setting a bit of a byte sets the bit at its position. -/
theorem ofBytes_modify (data : List UInt8) {n place : Nat} (within : n < data.length)
    (inside : place < 8) :
    ofBytes (data.modify n (· ||| mask place)) = (ofBytes data).set (8 * n + place) true := by
  induction data generalizing n with
  | nil => simp at within
  | cons byte data ih =>
    cases n with
    | zero =>
      rw [List.modify_zero_cons, ofBytes_cons, ofBytes_cons, ofNat_or_mask byte inside,
        List.set_append_left _ _ (by simpa using inside)]
      simp
    | succ n =>
      have behind : 8 * (n + 1) + place - 8 = 8 * n + place := by omega
      rw [List.modify_succ_cons, ofBytes_cons, ofBytes_cons, ih (by simpa using within),
        List.set_append_right _ _ (by simp; omega), length_ofNat, behind]

/-- Bits with zeros behind them up to a whole number of bytes. -/
def padded (bits : List Bool) : List Bool :=
  bits ++ List.replicate ((8 - bits.length % 8) % 8) false

theorem length_padded (bits : List Bool) : (padded bits).length = 8 * ((bits.length + 7) / 8) := by
  rw [padded, List.length_append, List.length_replicate]
  omega

/-- Behind the bits there are zeros up to the end of the last byte. -/
theorem getElem?_padded (bits : List Bool) {i : Nat} (within : i < (padded bits).length) :
    (padded bits)[i]? = some (bits[i]?.getD false) := by
  rw [padded, List.length_append, List.length_replicate] at within
  rw [padded, List.getElem?_append]
  split
  · rename_i stored
    simp [stored]
  · rename_i behind
    rw [List.getElem?_replicate, if_pos (by omega), List.getElem?_eq_none (by omega)]
    rfl

/-- Eight bits are read back from the byte that they make up. -/
theorem ofNat_byte {bits : List Bool} (whole : bits.length = 8) :
    ofNat 8 (UInt8.ofNat (toNat bits)).toNat = bits := by
  have small : toNat bits < UInt8.size := by
    have := toNat_lt bits
    rwa [whole] at this
  have back := ofNat_toNat bits
  rw [whole] at back
  rw [UInt8.toNat_ofNat_of_lt' small, back]

/-- The bytes that bits are packed into hold these bits, and zeros behind them. -/
theorem ofBytes_pack (bits : List Bool) : ofBytes (pack bits) = padded bits := by
  fun_induction pack bits with
  | case1 => rfl
  | case2 b bs first ih =>
    rw [ofBytes_cons, ih]
    by_cases whole : 8 ≤ (b :: bs).length
    · have length : first.length = 8 := by
        rw [List.length_take]
        omega
      have rest : ((b :: bs).drop 8).length % 8 = (b :: bs).length % 8 := by
        rw [List.length_drop]
        omega
      rw [length, Nat.sub_self, List.replicate_zero, List.append_nil, ofNat_byte length, padded,
        rest, padded, ← List.append_assoc, List.take_append_drop]
    · -- The last byte, which is filled up.
      have all : first = b :: bs := List.take_of_length_le (by omega)
      have none : (b :: bs).drop 8 = [] := List.drop_eq_nil_of_le (by omega)
      have short : (8 - (b :: bs).length % 8) % 8 = 8 - (b :: bs).length := by
        rw [List.length_cons] at *
        omega
      have length : ((b :: bs) ++ List.replicate (8 - (b :: bs).length) false).length = 8 := by
        rw [List.length_append, List.length_replicate]
        omega
      rw [all, none, ofNat_byte length, padded, padded, short]
      simp

theorem length_pack (bits : List Bool) : (pack bits).length = (bits.length + 7) / 8 := by
  have length := congrArg List.length (ofBytes_pack bits)
  rw [length_ofBytes, length_padded] at length
  omega

namespace Buffer

/-- The buffer holds these bits and zeros behind them. -/
def Holds (b : Buffer) (bits : List Bool) : Prop :=
  b.bitLength = bits.length ∧ ofBytes b.data = padded bits

variable {b : Buffer} {bits : List Bool}

/-- The bytes of a buffer are those that its bits are packed into. -/
theorem Holds.data_eq (holds : b.Holds bits) : b.data = pack bits := by
  rw [← pack_ofBytes b.data, holds.2, ← ofBytes_pack, pack_ofBytes]

/-- A bit that is written stands behind those before it. -/
theorem Holds.push (holds : b.Holds bits) (bit : Bool) : (b.push bit).Holds (bits ++ [bit]) := by
  obtain ⟨length, data⟩ := holds
  refine ⟨by simp [Buffer.push, length], ?_⟩
  -- With the byte that a full buffer gets there is room for a bit, in the last byte.
  obtain ⟨room, last⟩ : ∃ room, (bits.length + room + 1) % 8 = 0 ∧ room < 8 ∧
      ofBytes (if b.bitLength % 8 = 0 then b.data ++ [0] else b.data) =
        bits ++ List.replicate (room + 1) false := by
    by_cases full : b.bitLength % 8 = 0
    · refine ⟨7, by omega, by omega, ?_⟩
      rw [if_pos full, ofBytes_append, data, padded, ← length, full]
      simp [ofBytes, ofNat]
    · refine ⟨7 - bits.length % 8, by omega, by omega, ?_⟩
      have more : 7 - bits.length % 8 + 1 = (8 - bits.length % 8) % 8 := by omega
      rw [if_neg full, data, padded, more]
  obtain ⟨whole, small, holds⟩ := last
  have target : padded (bits ++ [bit]) = bits ++ bit :: List.replicate room false := by
    have rest : (8 - (bits ++ [bit]).length % 8) % 8 = room := by
      rw [List.length_append, List.length_singleton]
      omega
    rw [padded, rest, List.append_assoc, List.singleton_append]
  rw [target]
  cases bit with
  | false => exact holds
  | true =>
    have size := congrArg List.length holds
    rw [length_ofBytes, List.length_append, List.length_replicate] at size
    change ofBytes (List.modify _ _ _) = _
    rw [ofBytes_modify _ (by omega) (by omega), holds]
    have place : 8 * ((if b.bitLength % 8 = 0 then b.data ++ [0] else b.data).length - 1) +
        b.bitLength % 8 = bits.length := by omega
    rw [place, List.set_append_right _ _ (Nat.le_refl _), Nat.sub_self]
    rfl

/-- Bits that are written one after the other stand in this order. -/
theorem holds_pushAll (holds : b.Holds bits) (more : List Bool) :
    (b.pushAll more).Holds (bits ++ more) := by
  induction more generalizing b bits with
  | nil => simpa [pushAll] using holds
  | cons bit more ih =>
    have both := ih (holds.push bit)
    rwa [List.append_assoc, List.singleton_append] at both

/-- Pushing bits in two parts is pushing all of them. -/
theorem pushAll_append (b : Buffer) (xs ys : List Bool) :
    b.pushAll (xs ++ ys) = (b.pushAll xs).pushAll ys := List.foldl_append

theorem holds_empty : empty.Holds [] := ⟨rfl, rfl⟩

/-- The buffer has as many bytes as its bits begin. -/
theorem Holds.length_data (holds : b.Holds bits) : b.data.length = (bits.length + 7) / 8 := by
  rw [holds.data_eq, length_pack]

/-- A position of the bytes has the bit that was written there, or a zero. -/
theorem Holds.bit?_eq (holds : b.Holds bits) {i : Nat} (within : i < 8 * b.data.length) :
    b.bit? i = some (bits[i]?.getD false) := by
  have inside : i < (padded bits).length := by
    rwa [← holds.2, length_ofBytes]
  rw [bit?, ← getElem?_ofBytes, holds.2, getElem?_padded bits inside]

end Buffer

end ContractAbi.Bits
