import Mathlib.Algebra.Order.Ring.Nat
import ContractAbi.Cell.Bits

/-!
# Bit sequences and numbers

How the readings of a bit sequence and the bits of a number fit together. `toNat_ofNat` and
`ofNat_toNat` say that width and number determine the bits and the bits determine both;
`toInt_ofInt` says it for two's complement, and `pack_ofBytes` for the bytes that bits make up.
-/

namespace ContractAbi.Bits

theorem limit_eq (width : Nat) : limit width = 2 ^ width := rfl

/-- Bits that are read on from a number stand behind its own. -/
theorem foldl_toNat (bits : List Bool) (m : Nat) :
    bits.foldl (fun n b => 2 * n + b.toNat) m = m * 2 ^ bits.length + toNat bits := by
  induction bits generalizing m with
  | nil => simp [toNat]
  | cons b bits ih =>
    simp only [toNat, List.foldl_cons, List.length_cons]
    rw [ih, ih, Nat.pow_succ]
    simp only [Nat.mul_zero, Nat.zero_add, Nat.add_mul, Nat.add_assoc]
    have : 2 * m * 2 ^ bits.length = m * (2 ^ bits.length * 2) := by
      rw [Nat.mul_comm 2 m, Nat.mul_assoc, Nat.mul_comm 2]
    omega

/-- The first bit is the highest one. -/
theorem toNat_cons (b : Bool) (bits : List Bool) :
    toNat (b :: bits) = b.toNat * 2 ^ bits.length + toNat bits := by
  rw [toNat, List.foldl_cons, foldl_toNat]
  simp

theorem toNat_lt (bits : List Bool) : toNat bits < 2 ^ bits.length := by
  induction bits with
  | nil => simp [toNat]
  | cons b bits ih =>
    rw [toNat_cons, List.length_cons, Nat.pow_succ]
    cases b <;> simp <;> omega

/-- A number that is written in a width is read as what fits of it. -/
theorem toNat_ofNat (width n : Nat) : toNat (ofNat width n) = n % 2 ^ width := by
  induction width with
  | zero => simp [ofNat, toNat, Nat.mod_one]
  | succ width ih =>
    rw [ofNat, toNat_cons, ih, length_ofNat, Nat.testBit_eq_decide_div_mod_eq, Nat.pow_succ,
      Nat.mod_mul]
    have := Nat.mod_two_eq_zero_or_one (n / 2 ^ width)
    rcases this with h | h <;> simp [h, Nat.add_comm]

theorem toNat_ofNat_of_lt {width n : Nat} (h : n < 2 ^ width) : toNat (ofNat width n) = n := by
  rw [toNat_ofNat, Nat.mod_eq_of_lt h]

theorem testBit_toNat_cons (b : Bool) (bits : List Bool) :
    (toNat (b :: bits)).testBit bits.length = b := by
  rw [toNat_cons, Nat.testBit_eq_decide_div_mod_eq]
  have hlt := toNat_lt bits
  have hpos : 0 < 2 ^ bits.length := Nat.two_pow_pos _
  rw [Nat.mul_comm, Nat.mul_add_div hpos, Nat.div_eq_of_lt hlt]
  cases b <;> simp

/-- Only what fits into a width is written. -/
theorem ofNat_congr {width a b : Nat} (h : a % 2 ^ width = b % 2 ^ width) :
    ofNat width a = ofNat width b := by
  induction width with
  | zero => rfl
  | succ width ih =>
    have top : a.testBit width = b.testBit width := by
      have ha := Nat.testBit_mod_two_pow a (width + 1) width
      have hb := Nat.testBit_mod_two_pow b (width + 1) width
      rw [h] at ha
      simpa using ha.symm.trans hb
    have low : a % 2 ^ width = b % 2 ^ width := by
      have dvd : 2 ^ width ∣ 2 ^ (width + 1) := Nat.pow_dvd_pow 2 (Nat.le_succ width)
      rw [← Nat.mod_mod_of_dvd a dvd, h, Nat.mod_mod_of_dvd b dvd]
    rw [ofNat, ofNat, top, ih low]

/-- Bits are written again from the number that they are read as. -/
theorem ofNat_toNat (bits : List Bool) : ofNat bits.length (toNat bits) = bits := by
  induction bits with
  | nil => rfl
  | cons b bits ih =>
    rw [List.length_cons, ofNat, testBit_toNat_cons,
      ofNat_congr (b := toNat bits) (by rw [toNat_cons]; simp), ih]

/-- A number takes as many bits as it needs. -/
theorem size_le_iff {n width : Nat} : size n ≤ width ↔ n < 2 ^ width := by
  unfold size
  by_cases zero : n = 0
  · simp [zero]
  · rw [if_neg zero, Nat.succ_le_iff, Nat.log2_lt zero]

/-- A number fits into the bits that it takes. -/
theorem lt_two_pow_size (n : Nat) : n < 2 ^ size n := size_le_iff.mp (Nat.le_refl _)

/-- A number fits into the bytes that are counted for it. -/
theorem lt_two_pow_byteSize (n : Nat) : n < 2 ^ (byteSize n * 8) := by
  refine Nat.lt_of_lt_of_le (lt_two_pow_size n) (Nat.pow_le_pow_right (by decide) ?_)
  unfold byteSize
  omega

@[simp] theorem length_ofInt (width : Nat) (v : Int) : (ofInt width v).length = width :=
  length_ofNat ..

/-- In two's complement the first bit is taken away. -/
theorem toInt_cons (b : Bool) (bits : List Bool) :
    toInt (b :: bits) = toNat bits - (b.toNat * 2 ^ bits.length : Nat) := by
  have double : 2 ^ (bits.length + 1) = 2 ^ bits.length * 2 := Nat.pow_succ ..
  cases b with
  | false => simp [toInt, toNat_cons]
  | true =>
    simp only [toInt, limit_eq, toNat_cons, List.length_cons, double, Bool.toNat_true]
    omega

/-- In two's complement a negative number wraps around once. -/
theorem emod_limit_of_neg {width : Nat} {v : Int} (low : -(limit width : Int) ≤ v)
    (negative : v < 0) : v % limit width = v + limit width := by
  rw [← Int.add_emod_right]
  exact Int.emod_eq_of_lt (by omega) (by omega)

/-- A number in range is read back from its two's complement form. -/
theorem toInt_ofInt {width : Nat} {v : Int} (positive : width ≠ 0)
    (low : -(2 ^ (width - 1) : Nat) ≤ v) (high : v < (2 ^ (width - 1) : Nat)) :
    toInt (ofInt width v) = v := by
  obtain ⟨half, rfl⟩ : ∃ half, width = half + 1 := ⟨width - 1, by omega⟩
  rw [Nat.add_sub_cancel] at low high
  have double : 2 ^ (half + 1) = 2 ^ half * 2 := Nat.pow_succ ..
  have size : 0 < 2 ^ half := Nat.two_pow_pos half
  generalize word : (v % limit (half + 1)).toNat = n
  rw [limit_eq, double] at word
  rw [ofInt, limit_eq, double, word, ofNat, toInt_cons, toNat_ofNat, length_ofNat]
  by_cases negative : v < 0
  · -- The word is `v` plus twice the half, so that its top bit is set.
    have wraps : v % (2 ^ half * 2 : Nat) = v + (2 ^ half * 2 : Nat) := by
      rw [← double]
      apply emod_limit_of_neg _ negative
      rw [limit_eq]
      omega
    have split : n = 2 ^ half + (n - 2 ^ half) := by omega
    have top : n.testBit half = true := by
      rw [split, Nat.testBit_two_pow_add_eq, Nat.testBit_lt_two_pow (by omega)]
      rfl
    rw [top, split, Nat.add_mod_left, Nat.mod_eq_of_lt (by omega), Bool.toNat_true]
    omega
  · have plain : v % (2 ^ half * 2 : Nat) = v := Int.emod_eq_of_lt (by omega) (by omega)
    have top : n.testBit half = false := Nat.testBit_lt_two_pow (by omega)
    rw [top, Nat.mod_eq_of_lt (by omega), Bool.toNat_false]
    omega

theorem ofBytes_cons (byte : UInt8) (bytes : List UInt8) :
    ofBytes (byte :: bytes) = ofNat 8 byte.toNat ++ ofBytes bytes := rfl

/-- The first eight bits are the first byte. -/
theorem pack_append {first : List Bool} (bits : List Bool) (whole : first.length = 8) :
    pack (first ++ bits) = UInt8.ofNat (toNat first) :: pack bits := by
  rw [pack.eq_def]
  split
  · rename_i none
    have := congrArg List.length none
    simp [whole] at this
  · rename_i b bs all
    rw [← all, ← whole, List.take_left, List.drop_left]
    simp only [Nat.sub_self, List.replicate_zero, List.append_nil]

/-- Bytes are read back from their bits. -/
theorem pack_ofBytes (bytes : List UInt8) : pack (ofBytes bytes) = bytes := by
  induction bytes with
  | nil => simp [ofBytes, pack]
  | cons byte bytes ih =>
    rw [ofBytes_cons, pack_append _ (length_ofNat ..), ih, toNat_ofNat_of_lt byte.toNat_lt]
    simp

end ContractAbi.Bits
