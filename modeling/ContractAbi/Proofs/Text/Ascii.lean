import Mathlib.Algebra.Order.Ring.Nat
import ContractAbi.Text.Ascii
import ContractAbi.Text.Blank
import ContractAbi.Text.Hex

/-!
# Classes of ASCII characters

Word characters and hexadecimal digits are ASCII, so that what holds of all ASCII characters of a
class holds of the class (`forall_of_ascii`). A run of hexadecimal digits stands for a number below
the power of sixteen of its length (`hexNumber_lt`).
-/

namespace ContractAbi.Text

/-- To check a property of ASCII characters is to check it of 128 of them. -/
theorem forall_of_ascii {p q : Char → Bool} (ascii : ∀ c, p c = true → c.toNat < 128)
    (checked : ∀ n < 128, p (Char.ofNat n) = true → q (Char.ofNat n) = true) {c : Char}
    (holds : p c = true) : q c = true := by
  have same : Char.ofNat c.toNat = c := Char.ofNat_toNat c
  have found := checked c.toNat (ascii c holds)
  rw [same] at found
  exact found holds

theorem toNat_lt_of_isWordChar (c : Char) (word : isWordChar c = true) : c.toNat < 128 := by
  change (decide (c.val ≥ 'A'.val ∧ c.val ≤ 'Z'.val) ||
    decide (c.val ≥ 'a'.val) && decide (c.val ≤ 'z'.val) ||
    decide (c.val ≥ '0'.val) && decide (c.val ≤ '9'.val) || c == '_') = true at word
  simp only [Bool.or_eq_true, Bool.and_eq_true, decide_eq_true_eq, beq_iff_eq, ge_iff_le,
    UInt32.le_iff_toNat_le] at word
  change c.val.toNat < 128
  rcases word with ((⟨-, le⟩ | ⟨-, le⟩) | ⟨-, le⟩) | rfl
  · exact Nat.lt_of_le_of_lt le (by decide)
  · exact Nat.lt_of_le_of_lt le (by decide)
  · exact Nat.lt_of_le_of_lt le (by decide)
  · decide

theorem hexValue?_eq_some {c : Char} {n : Nat} (value : hexValue? c = some n) :
    n < 16 ∧ c.toNat < 128 := by
  simp only [hexValue?, Char.le_def, UInt32.le_iff_toNat_le] at value
  have zero : '0'.val.toNat = 48 := rfl
  have nine : '9'.val.toNat = 57 := rfl
  have lowA : 'a'.val.toNat = 97 := rfl
  have lowF : 'f'.val.toNat = 102 := rfl
  have highA : 'A'.val.toNat = 65 := rfl
  have highF : 'F'.val.toNat = 70 := rfl
  rw [zero, nine, lowA, lowF, highA, highF] at value
  have code : c.toNat = c.val.toNat := rfl
  have code0 : '0'.toNat = 48 := rfl
  have codeLowA : 'a'.toNat = 97 := rfl
  have codeHighA : 'A'.toNat = 65 := rfl
  split at value
  · cases value
    omega
  · split at value
    · cases value
      omega
    · split at value
      · cases value
        omega
      · cases value

theorem toNat_lt_of_isHexDigit (c : Char) (hex : isHexDigit c = true) : c.toNat < 128 := by
  obtain ⟨n, value⟩ := Option.isSome_iff_exists.mp hex
  exact (hexValue?_eq_some value).2

theorem isBlank_of_isWordChar {c : Char} (word : isWordChar c = true) : isBlank c = false := by
  have letter := forall_of_ascii (q := fun c => !isBlank c) toNat_lt_of_isWordChar (by decide) word
  simpa using letter

theorem isWordChar_of_isHexDigit {c : Char} (hex : isHexDigit c = true) : isWordChar c = true :=
  forall_of_ascii toNat_lt_of_isHexDigit (by decide) hex

theorem Hex.isHexDigit_of_mem_digits {c : Char} {bytes : List UInt8} (among : c ∈ Hex.digits bytes) :
    isHexDigit c = true := by
  have digit : ∀ n < 16, isHexDigit (hexDigit n) = true := by
    intro n small
    rw [isHexDigit, hexValue?_hexDigit n small]
    rfl
  obtain ⟨byte, -, half⟩ := List.mem_flatMap.mp among
  have small := byte.toNat_lt
  rw [Hex.byteDigits, List.mem_cons, List.mem_singleton] at half
  rcases half with rfl | rfl
  · exact digit _ (by omega)
  · exact digit _ (by omega)

theorem foldl_hexNumber_lt (cs : List Char) {start bound : Nat} (below : start < bound) :
    cs.foldl (fun n c => 16 * n + (hexValue? c).getD 0) start < bound * 16 ^ cs.length := by
  induction cs generalizing start bound with
  | nil => simpa using below
  | cons c cs ih =>
    have digit : (hexValue? c).getD 0 < 16 := by
      cases value : hexValue? c with
      | none => decide
      | some n => exact (hexValue?_eq_some value).1
    have step : 16 * start + (hexValue? c).getD 0 < bound * 16 := by omega
    have rest := ih step
    rwa [Nat.mul_assoc, ← Nat.pow_succ'] at rest

theorem hexNumber_lt (cs : List Char) : hexNumber cs < 16 ^ cs.length := by
  have bounded := foldl_hexNumber_lt cs Nat.zero_lt_one
  rwa [Nat.one_mul] at bounded

end ContractAbi.Text
