import ContractAbi.Json.Read
import ContractAbi.Json.Write

/-!
# String literals

A character inside a literal is read back whichever way it was written: as itself, by a letter or by
its number (`readString_escapeChar`). So a quoted text is read back whole, up to its closing quote
(`readString_quote`).
-/

namespace ContractAbi.Json

open Text

variable {seen : List Char}

/-! ### The three ways to write a character -/

theorem readString_plain {c : Char} (noQuote : c ≠ '"') (noEscape : c ≠ '\\')
    (visible : 0x20 ≤ c.toNat) (rest : List Char) :
    readString (some seen) none (c :: rest) = readString (some (c :: seen)) none rest := by
  rw [readString]
  · rw [if_neg (Nat.not_lt.mpr visible)]
    rfl
  · exact noQuote
  · exact fun _ _ _ _ _ same _ => noEscape same
  · exact fun _ _ same _ => noEscape same

theorem readString_letter {c e : Char} (escape : escaped? c = some e) (rest : List Char) :
    readString (some seen) none ('\\' :: c :: rest) = readString (some (e :: seen)) none rest := by
  rw [readString]
  · rw [escape]
    rfl
  · rintro _ _ _ _ _ rfl _
    cases escape

theorem readString_unit {a b c d e : Char} (unit : unit? a b c d = some e.toNat)
    (small : e.toNat < 0xD800) (rest : List Char) :
    readString (some seen) none ('\\' :: 'u' :: a :: b :: c :: d :: rest) =
      readString (some (e :: seen)) none rest := by
  have high : isHighSurrogate e.toNat = false := by
    rw [isHighSurrogate, decide_eq_false (Nat.not_le.mpr small), Bool.false_and]
  have low : isLowSurrogate e.toNat = false := by
    rw [isLowSurrogate, decide_eq_false (by omega), Bool.false_and]
  rw [readString, unit]
  simp only [high, low, Bool.false_eq_true, if_false, Char.ofNat_toNat]
  rfl

theorem unit?_control {c : Char} (control : c.toNat < 0x20) :
    unit? '0' '0' (hexDigit (c.toNat / 16)) (hexDigit (c.toNat % 16)) = some c.toNat := by
  have high := hexValue?_hexDigit (c.toNat / 16) (by omega)
  have low := hexValue?_hexDigit (c.toNat % 16) (by omega)
  have zero : hexValue? '0' = some 0 := by decide
  have value : 16 * (c.toNat / 16) + c.toNat % 16 = c.toNat := by omega
  simp [unit?, isHexDigit, hexNumber, high, low, zero, value]

/-! ### Whole literals -/

theorem ofNat_eq {c : Char} {n : Nat} (code : c.toNat = n) : Char.ofNat n = c := by
  rw [← code]
  exact Char.ofNat_toNat c

/-- Each character is read from the way in which it is written. -/
theorem readString_escapeChar (c : Char) (rest : List Char) :
    readString (some seen) none (escapeChar c ++ rest) =
      readString (some (c :: seen)) none rest := by
  unfold escapeChar
  split
  · exact readString_letter rfl rest
  · exact readString_letter rfl rest
  · exact readString_letter rfl rest
  · exact readString_letter rfl rest
  · exact readString_letter rfl rest
  · rename_i noQuote noEscape _ _ _
    by_cases backspace : c.toNat = 8
    · rw [if_pos backspace]
      have letter : escaped? 'b' = some c := congrArg some (ofNat_eq backspace)
      exact readString_letter letter rest
    by_cases formFeed : c.toNat = 12
    · rw [if_neg backspace, if_pos formFeed]
      have letter : escaped? 'f' = some c := congrArg some (ofNat_eq formFeed)
      exact readString_letter letter rest
    rw [if_neg backspace, if_neg formFeed]
    by_cases control : c.toNat < 0x20
    · rw [if_pos control]
      exact readString_unit (unit?_control control) (by omega) rest
    · rw [if_neg control]
      exact readString_plain noQuote noEscape (Nat.not_lt.mp control) rest

theorem readString_flatMap_escapeChar (cs rest : List Char) :
    readString (some seen) none (cs.flatMap escapeChar ++ '"' :: rest) =
      some (.string (String.ofList (seen.reverse ++ cs)), rest) := by
  induction cs generalizing seen with
  | nil =>
    rw [List.flatMap_nil, List.nil_append, readString, List.append_nil]
    rfl
  | cons c cs ih =>
    rw [List.flatMap_cons, List.append_assoc, readString_escapeChar, ih, List.reverse_cons,
      List.append_assoc, List.singleton_append]

theorem toList_quote (s : String) :
    (quote s).toList = '"' :: (s.toList.flatMap escapeChar ++ ['"']) := by
  simp [quote]

/-- The text of a literal behind its opening quote is read up to its closing quote. -/
theorem readString_quote (s : String) (rest : List Char) :
    readString (some []) none (s.toList.flatMap escapeChar ++ '"' :: rest) =
      some (.string s, rest) := by
  rw [readString_flatMap_escapeChar, List.reverse_nil, List.nil_append, String.ofList_toList]

end ContractAbi.Json
