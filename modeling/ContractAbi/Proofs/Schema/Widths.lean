import Mathlib.Tactic.SplitIfs
import ContractAbi.Schema.Category

/-!
# The widths of types

A width is read off the text of a type and refused if no integer has it, and a bound that is not a
word gives way to the default. So whatever type is written, its category has only widths and bounds
that there are (`Category.bounded_ofText`), inside of other types as well, and so has a parameter
without a type (`Category.bounded_ofParameter`).
-/

namespace ContractAbi.Category

open Text

/-- Integers have at least one bit, and no more than the longest integer of their kind; bounds are
words. -/
def Bounded : Category → Prop
  | .integer bits signed => 1 ≤ bits ∧ bits ≤ if signed then 257 else 256
  | .varUInt bound => bound ≤ maxWord
  | .optional inner => inner.Bounded
  | .either left right => left.Bounded ∧ right.Bounded
  | _ => True

theorem digits?_le {limit n : Nat} {cs : List Char} (found : Decimal.digits? limit cs = some n) :
    n ≤ limit := by
  unfold Decimal.digits? at found
  split at found
  · rename_i fits
    cases found
    simp only [Bool.and_eq_true, decide_eq_true_eq] at fits
    exact fits.2
  · cases found

theorem natural?_le {limit n : Nat} {cs : List Char}
    (found : Decimal.natural? limit cs = some n) : n ≤ limit := by
  unfold Decimal.natural? at found
  split at found <;> exact digits?_le found

variable {c : Category} {token : List Char}

/-- A size that is read is within its bound. -/
theorem bounded_sized? {signed : Bool} {widest : Nat} {digits : List Char}
    (longest : widest = if signed then 257 else 256)
    (found : sized? signed widest digits = some c) : c.Bounded := by
  unfold sized? at found
  split at found
  · split at found
    · rename_i inRange
      cases found
      rw [longest] at inRange
      exact inRange
    · cases found
  · cases found

theorem bounded_fixedInt? (found : fixedInt? token = some c) : c.Bounded := by
  unfold fixedInt? at found
  split at found
  · exact bounded_sized? rfl found
  · split at found
    · exact bounded_sized? rfl found
    · cases found

theorem bounded_literal? (found : literal? token = some c) : c.Bounded := by
  simp only [literal?] at found
  split_ifs at found <;> cases found <;> trivial

/-- What is read for a bound is a word, and so is the default. -/
theorem bounded_varUInt (digits : List Char) :
    (varUInt ((Decimal.natural? maxWord digits).getD defaultBound)).Bounded := by
  cases read : Decimal.natural? maxWord digits with
  | none => exact (by decide : defaultBound ≤ maxWord)
  | some bound => exact natural?_le read

/-- By recursion on the types inside of a type; one case for each rule, in the order of the rules.
-/
theorem bounded_ofToken (token : List Char) : (ofToken token).Bounded := by
  fun_induction ofToken token with
  | case1 token c found => exact bounded_fixedInt? found
  | case2 token _ c found => exact bounded_literal? found
  | case3 token _ _ args _ inner => exact inner
  | case4 => exact ⟨trivial, trivial⟩
  | case5 token _ _ _ args _ left _ first => exact ⟨first, trivial⟩
  | case6 token _ _ _ args _ left right more _ first second => exact ⟨first, second⟩
  | case7 token _ _ _ _ args => exact bounded_varUInt (trim args)
  | case8 | case9 | case10 | case11 => trivial

theorem bounded_ofText (raw : String) : (ofText raw).Bounded := bounded_ofToken _

/-- The category of a parameter is within the bounds. -/
theorem bounded_ofParameter (p : Parameter) : (ofParameter p).Bounded := by
  unfold ofParameter
  split
  · split
    · exact ⟨by decide, by decide⟩
    all_goals trivial
  · exact bounded_ofText p.rawType

end ContractAbi.Category
