import ContractAbi.Text.Decimal

/-!
# Written numbers are read back

Numbers are written without leading zeros, and a minus sign stands before those below zero. Reading
takes them as they are written, as long as they lie within its bounds (`integer?_toString`), and
nothing else stands in them (`eq_minus_or_isDigit_of_mem_toString`).
-/

namespace ContractAbi.Text.Decimal

theorem value_toDigits (n : Nat) : value (Nat.toDigits 10 n) = n := by
  rw [value, ← Nat.ofDigitChars_eq_foldl, Nat.ofDigitChars_ten_toDigits]

theorem isDigit_of_mem_toDigits {n : Nat} {c : Char} (among : c ∈ Nat.toDigits 10 n) :
    c.isDigit = true := Nat.isDigit_of_mem_toDigits (by decide) (by decide) among

theorem isDigits_toDigits (n : Nat) : isDigits (Nat.toDigits 10 n) = true := by
  have digits : ∀ c ∈ Nat.toDigits 10 n, c.isDigit = true := fun _ => isDigit_of_mem_toDigits
  simp [isDigits, Nat.toDigits_ne_nil, List.all_eq_true.mpr digits]

theorem digits?_toDigits {limit n : Nat} (upper : n ≤ limit) :
    digits? limit (Nat.toDigits 10 n) = some n := by
  simp [digits?, isDigits_toDigits, value_toDigits, upper]

theorem natural?_toDigits {limit n : Nat} (upper : n ≤ limit) :
    natural? limit (Nat.toDigits 10 n) = some n := by
  unfold natural?
  split
  · rename_i plus
    have digits := isDigits_toDigits n
    rw [plus] at digits
    simp [isDigits] at digits
  · exact digits?_toDigits upper

theorem toList_toString (v : Int) :
    (toString v).toList =
      if 0 ≤ v then Nat.toDigits 10 v.toNat else '-' :: Nat.toDigits 10 (-v).toNat := by
  rw [Int.toString_eq_repr, Int.repr_eq_if]
  by_cases negative : 0 ≤ v
  · rw [if_pos negative, if_pos negative, Nat.toList_repr]
  · rw [if_neg negative, if_neg negative, String.toList_append, Nat.toList_repr]
    rfl

theorem eq_minus_or_isDigit_of_mem_toString {v : Int} {c : Char} (among : c ∈ (toString v).toList) :
    c = '-' ∨ c.isDigit = true := by
  rw [toList_toString] at among
  split at among
  · exact .inr (isDigit_of_mem_toDigits among)
  · rcases List.mem_cons.mp among with sign | digit
    · exact .inl sign
    · exact .inr (isDigit_of_mem_toDigits digit)

/-- Digits are read as they stand, for no sign is a digit. -/
theorem integer?_digits {low high : Int} {n : Nat} (lower : low ≤ n) (upper : n ≤ high) :
    integer? low high (Nat.toDigits 10 n) = some (n : Int) := by
  have digits := isDigits_toDigits n
  have value := value_toDigits n
  unfold integer?
  split
  rename_i parts
  split at parts
  · rename_i minus
    rw [minus] at digits
    simp [isDigits] at digits
  · rename_i plus
    rw [plus] at digits
    simp [isDigits] at digits
  · obtain ⟨rfl, rfl⟩ := Prod.mk.inj parts
    simp [digits, value, lower, upper]

theorem integer?_minus_digits {low high : Int} {n : Nat} (lower : low ≤ -n) (upper : -n ≤ high) :
    integer? low high ('-' :: Nat.toDigits 10 n) = some (-n : Int) := by
  simp [integer?, isDigits_toDigits, value_toDigits, lower, upper]

/-- A number in range is read from its digits. -/
theorem integer?_toString {low high v : Int} (lower : low ≤ v) (upper : v ≤ high) :
    integer? low high (toString v).toList = some v := by
  rw [toList_toString]
  by_cases negative : 0 ≤ v
  · have same : (v.toNat : Int) = v := Int.toNat_of_nonneg negative
    rw [if_pos negative, integer?_digits (by omega) (by omega), same]
  · have same : -((-v).toNat : Int) = v := by omega
    rw [if_neg negative, integer?_minus_digits (by omega) (by omega), same]

end ContractAbi.Text.Decimal
