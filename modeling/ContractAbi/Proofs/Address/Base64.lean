import ContractAbi.Address.Base64
import ContractAbi.Proofs.Cell.Packing

/-!
# Base 64 is read as it is written

A text is read as bytes if it is what these bytes are written as, and only then
(`decode_eq_some_iff`). Everything about a group of four characters is in `ungroup?_eq_some_iff`; a
last group that is shorter is one whose last bytes are zero. Each character of a text stands for six
bits, and where the groups are whole the bits of the bytes are those of the characters in order
(`ofBytes_of_decode`).
-/

namespace ContractAbi.Base64

open Bits (ofNat)

/-- The characters stand for the values up to 63. -/
theorem value?_char (n : Nat) : value? (char n) = some (n % 64) := by
  have all : ∀ m < 64, value? (char m) = some m := by decide +kernel
  have wraps : char (n % 64) = char n := by rw [char, Nat.mod_mod, char]
  rw [← wraps]
  exact all _ (Nat.mod_lt n (by decide))

/-- A character that has a value is the one of this value. -/
theorem value?_eq_some {c : Char} {n : Nat} (value : value? c = some n) : n < 64 ∧ char n = c := by
  obtain ⟨inside, found, -⟩ := List.findIdx?_eq_some_iff_getElem.mp value
  have small : n < 64 := inside
  refine ⟨small, ?_⟩
  rw [char, Nat.mod_eq_of_lt small, List.getD_eq_getElem _ _ inside]
  exact beq_iff_eq.mp found

theorem char_mem_alphabet (n : Nat) : char n ∈ alphabet := by
  have inside : n % 64 < alphabet.length := Nat.mod_lt n (by decide)
  rw [char, List.getD_eq_getElem _ _ inside]
  exact List.getElem_mem inside

theorem group_subset_alphabet (a b c : UInt8) : group a b c ⊆ alphabet := by
  intro l among
  simp only [group, List.mem_cons, List.not_mem_nil, or_false] at among
  rcases among with rfl | rfl | rfl | rfl
  all_goals exact char_mem_alphabet _

/-- Nothing but the characters of the alphabet is written. -/
theorem mem_alphabet_of_mem_encode {c : Char} {bytes : List UInt8} (among : c ∈ encode bytes) :
    c ∈ alphabet := by
  induction bytes using encode.induct with
  | case1 => cases among
  | case2 a => exact group_subset_alphabet a 0 0 (List.mem_of_mem_take among)
  | case3 a b => exact group_subset_alphabet a b 0 (List.mem_of_mem_take among)
  | case4 x y z rest ih =>
    rw [encode, List.mem_append] at among
    rcases among with here | behind
    · exact group_subset_alphabet x y z here
    · exact ih behind

/-- The number that four values make up. -/
def join (i j k l : Nat) : Nat := 262144 * i + 4096 * j + 64 * k + l

/-- The three bytes of a number below `2 ^ 24`. -/
def split (n : Nat) : UInt8 × UInt8 × UInt8 :=
  (UInt8.ofNat (n / 65536), UInt8.ofNat (n / 256), UInt8.ofNat n)

/-- Four characters are read by their values, all of which they must have. -/
theorem ungroup?_eq_some_iff_values {w x y z : Char} {bytes : UInt8 × UInt8 × UInt8} :
    ungroup? w x y z = some bytes ↔ ∃ i j k l, value? w = some i ∧ value? x = some j ∧
      value? y = some k ∧ value? z = some l ∧ bytes = split (join i j k l) := by
  simp only [ungroup?, Option.bind_eq_bind, Option.bind_eq_some_iff, Option.pure_def,
    Option.some.injEq]
  constructor
  · rintro ⟨i, first, j, second, k, third, l, fourth, rfl⟩
    exact ⟨i, j, k, l, first, second, third, fourth, rfl⟩
  · rintro ⟨i, j, k, l, first, second, third, fourth, rfl⟩
    exact ⟨i, first, j, second, k, third, l, fourth, rfl⟩

/-- The bytes of four values are written as these values. -/
theorem group_split {i j k l : Nat} (hj : j < 64) (hk : k < 64) (hl : l < 64) :
    group (split (join i j k l)).1 (split (join i j k l)).2.1 (split (join i j k l)).2.2 =
      [char i, char j, char k, char l] := by
  have low : ∀ m n, m % 64 = n % 64 → char m = char n := by
    intro m n same
    rw [char, same, char]
  simp only [group, split, join, UInt8.toNat_ofNat', List.cons.injEq, and_true]
  refine ⟨low _ _ ?_, low _ _ ?_, low _ _ ?_, low _ _ ?_⟩ <;> omega

/-- Three bytes make a number, and come out of it again. -/
theorem split_bytes (a b c : UInt8) :
    split (65536 * a.toNat + 256 * b.toNat + c.toNat) = (a, b, c) := by
  have ha := a.toNat_lt
  have hb := b.toNat_lt
  have hc := c.toNat_lt
  have byte : ∀ (n : Nat) (d : UInt8), n % 256 = d.toNat → UInt8.ofNat n = d := by
    intro n d same
    rw [← UInt8.toNat_inj, UInt8.toNat_ofNat']
    exact same
  rw [split, byte (_ / 65536) a (by omega), byte (_ / 256) b (by omega), byte _ c (by omega)]

/-- Four characters stand for three bytes if they are what the bytes are written as. -/
theorem ungroup?_eq_some_iff {w x y z : Char} {a b c : UInt8} :
    ungroup? w x y z = some (a, b, c) ↔ [w, x, y, z] = group a b c := by
  rw [ungroup?_eq_some_iff_values]
  constructor
  · rintro ⟨i, j, k, l, first, second, third, fourth, bytes⟩
    obtain ⟨-, rfl⟩ := value?_eq_some first
    obtain ⟨hj, rfl⟩ := value?_eq_some second
    obtain ⟨hk, rfl⟩ := value?_eq_some third
    obtain ⟨hl, rfl⟩ := value?_eq_some fourth
    have parts := group_split (i := i) hj hk hl
    rw [← bytes] at parts
    exact parts.symm
  · intro written
    have ha := a.toNat_lt
    have hb := b.toNat_lt
    have hc := c.toNat_lt
    simp only [group, List.cons.injEq, and_true] at written
    obtain ⟨rfl, rfl, rfl, rfl⟩ := written
    refine ⟨_, _, _, _, value?_char _, value?_char _, value?_char _, value?_char _, ?_⟩
    rw [← split_bytes, join]
    congr 1
    omega

/-- Six bits that are zero are written as the first character. -/
theorem char_eq_of_mod_eq_zero {n : Nat} (zero : n % 64 = 0) : char n = 'A' := by
  rw [char, zero]
  rfl

/-- A last byte that is zero ends in the character of zero. -/
theorem group_zero (a b : UInt8) : group a b 0 = (group a b 0).take 3 ++ ['A'] := by
  have last : char (65536 * a.toNat + 256 * b.toNat) = 'A' := char_eq_of_mod_eq_zero (by omega)
  exact congrArg (fun l => [char _, char _, char _, l]) last

/-- Two last bytes that are zero end in two characters of zero. -/
theorem group_zero_zero (a : UInt8) : group a 0 0 = (group a 0 0).take 2 ++ ['A', 'A'] := by
  have third : char (65536 * a.toNat / 64) = 'A' := char_eq_of_mod_eq_zero (by omega)
  have last : char (65536 * a.toNat) = 'A' := char_eq_of_mod_eq_zero (by omega)
  exact congrArg₂ (fun k l => [char _, char _, k, l]) third last

/-- Three characters and one more that stands for zero are a group whose last byte is zero. -/
theorem eq_group_zero_iff {w x y : Char} {a b : UInt8} :
    [w, x, y, 'A'] = group a b 0 ↔ [w, x, y] = (group a b 0).take 3 := by
  rw [group_zero a b]
  simp [group]

theorem eq_group_zero_zero_iff {w x : Char} {a : UInt8} :
    [w, x, 'A', 'A'] = group a 0 0 ↔ [w, x] = (group a 0 0).take 2 := by
  rw [group_zero_zero a]
  simp [group]

/-- Two characters are read as one byte if they are what it is written as. -/
theorem decode_one_eq_some_iff {w x : Char} {bytes : List UInt8} :
    decode [w, x] = some bytes ↔ ∃ a, bytes = [a] ∧ [w, x] = (group a 0 0).take 2 := by
  simp only [decode, Option.bind_eq_bind, Option.bind_eq_some_iff, Prod.exists]
  constructor
  · rintro ⟨a, b, c, read, last⟩
    split_ifs at last with zeros
    obtain ⟨rfl, rfl⟩ := zeros
    cases last
    exact ⟨a, rfl, eq_group_zero_zero_iff.mp (ungroup?_eq_some_iff.mp read)⟩
  · rintro ⟨a, rfl, written⟩
    exact ⟨a, 0, 0, ungroup?_eq_some_iff.mpr (eq_group_zero_zero_iff.mpr written), rfl⟩

/-- Three characters are read as two bytes if they are what these are written as. -/
theorem decode_two_eq_some_iff {w x y : Char} {bytes : List UInt8} :
    decode [w, x, y] = some bytes ↔
      ∃ a b, bytes = [a, b] ∧ [w, x, y] = (group a b 0).take 3 := by
  simp only [decode, Option.bind_eq_bind, Option.bind_eq_some_iff, Prod.exists]
  constructor
  · rintro ⟨a, b, c, read, last⟩
    split_ifs at last with zero
    subst zero
    cases last
    exact ⟨a, b, rfl, eq_group_zero_iff.mp (ungroup?_eq_some_iff.mp read)⟩
  · rintro ⟨a, b, rfl, written⟩
    exact ⟨a, b, 0, ungroup?_eq_some_iff.mpr (eq_group_zero_iff.mpr written), rfl⟩

/-- Four characters are read as three bytes, whatever stands behind them. -/
theorem decode_group_eq_some_iff {w x y z : Char} {rest : List Char} {bytes : List UInt8} :
    decode (w :: x :: y :: z :: rest) = some bytes ↔
      ∃ a b c tail, bytes = a :: b :: c :: tail ∧ [w, x, y, z] = group a b c ∧
        decode rest = some tail := by
  simp only [decode, Option.bind_eq_bind, Option.bind_eq_some_iff, Prod.exists, Option.pure_def,
    Option.some.injEq]
  constructor
  · rintro ⟨a, b, c, read, tail, behind, rfl⟩
    exact ⟨a, b, c, tail, rfl, ungroup?_eq_some_iff.mp read, behind⟩
  · rintro ⟨a, b, c, tail, rfl, written, behind⟩
    exact ⟨a, b, c, ungroup?_eq_some_iff.mpr written, tail, behind, rfl⟩

/-- Bytes are read back from what is written for them. -/
theorem decode_encode (bytes : List UInt8) : decode (encode bytes) = some bytes := by
  induction bytes using encode.induct with
  | case1 => rfl
  | case2 a => exact decode_one_eq_some_iff.mpr ⟨a, rfl, rfl⟩
  | case3 a b => exact decode_two_eq_some_iff.mpr ⟨a, b, rfl, rfl⟩
  | case4 a b c rest ih => exact decode_group_eq_some_iff.mpr ⟨a, b, c, rest, rfl, rfl, ih⟩

/-- Nothing else is read as these bytes. -/
theorem eq_encode_of_decode {cs : List Char} {bytes : List UInt8} (read : decode cs = some bytes) :
    cs = encode bytes := by
  induction cs using decode.induct generalizing bytes with
  | case1 =>
    cases read
    rfl
  | case2 c => cases read
  | case3 w x =>
    obtain ⟨a, rfl, written⟩ := decode_one_eq_some_iff.mp read
    exact written
  | case4 w x y =>
    obtain ⟨a, b, rfl, written⟩ := decode_two_eq_some_iff.mp read
    exact written
  | case5 w x y z rest ih =>
    obtain ⟨a, b, c, tail, rfl, written, behind⟩ := decode_group_eq_some_iff.mp read
    rw [encode, ← written, ← ih behind]
    rfl

/-- A text stands for bytes if it is what they are written as. -/
theorem decode_eq_some_iff {cs : List Char} {bytes : List UInt8} :
    decode cs = some bytes ↔ cs = encode bytes := by
  constructor
  · exact eq_encode_of_decode
  · rintro rfl
    exact decode_encode bytes

/-- Two bytes are three characters, of which the last one cannot be any. -/
example : encode [0x66, 0x6f] = "Zm8".toList ∧ decode "Zm9".toList = none := by
  decide +kernel

/-- The six bits that a character stands for. -/
def sextet (c : Char) : List Bool := ofNat 6 ((value? c).getD 0)

theorem sextet_char (n : Nat) : sextet (char n) = ofNat 6 n := by
  rw [sextet, value?_char, Option.getD_some]
  exact Bits.ofNat_congr (Nat.mod_mod n 64)

/-- Twenty-four bits are four times six as they are three times eight. -/
theorem ofNat_sextets (n : Nat) :
    ofNat 6 (n / 262144) ++ (ofNat 6 (n / 4096) ++ (ofNat 6 (n / 64) ++ ofNat 6 n)) =
      ofNat 8 (n / 65536) ++ (ofNat 8 (n / 256) ++ ofNat 8 n) :=
  calc ofNat 6 (n / 262144) ++ (ofNat 6 (n / 4096) ++ (ofNat 6 (n / 64) ++ ofNat 6 n))
    _ = ofNat 24 n := by
      rw [Bits.ofNat_append 6 18, Bits.ofNat_append 6 12, Bits.ofNat_append 6 6]
      rfl
    _ = ofNat 8 (n / 65536) ++ (ofNat 8 (n / 256) ++ ofNat 8 n) := by
      rw [Bits.ofNat_append 8 16, Bits.ofNat_append 8 8]
      rfl

/-- The bits of three bytes are those of their characters. -/
theorem flatMap_sextet_group (a b c : UInt8) :
    (group a b c).flatMap sextet = Bits.ofBytes [a, b, c] := by
  have ha := a.toNat_lt
  have hb := b.toNat_lt
  have hc := c.toNat_lt
  have sextets := ofNat_sextets (65536 * a.toNat + 256 * b.toNat + c.toNat)
  have first : ofNat 8 ((65536 * a.toNat + 256 * b.toNat + c.toNat) / 65536) = ofNat 8 a.toNat :=
    Bits.ofNat_congr (by omega)
  have second : ofNat 8 ((65536 * a.toNat + 256 * b.toNat + c.toNat) / 256) = ofNat 8 b.toNat :=
    Bits.ofNat_congr (by omega)
  have third : ofNat 8 (65536 * a.toNat + 256 * b.toNat + c.toNat) = ofNat 8 c.toNat :=
    Bits.ofNat_congr (by omega)
  rw [first, second, third] at sextets
  simpa [group, sextet_char, Bits.ofBytes] using sextets

/-- Where the groups are whole, the bits of the bytes are those of the characters. -/
theorem ofBytes_of_decode {cs : List Char} {bytes : List UInt8} (read : decode cs = some bytes)
    (whole : 3 ∣ bytes.length) : Bits.ofBytes bytes = cs.flatMap sextet := by
  rw [eq_encode_of_decode read]
  clear read
  induction bytes using encode.induct with
  | case1 => rfl
  | case2 a => simp at whole
  | case3 a b => simp at whole
  | case4 a b c rest ih =>
    have front := Bits.ofBytes_append [a, b, c] rest
    have whole : 3 ∣ rest.length := by
      simp only [List.length_cons] at whole
      omega
    rw [encode, List.flatMap_append, flatMap_sextet_group, ← ih whole]
    exact front

end ContractAbi.Base64
