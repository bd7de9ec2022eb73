import Mathlib.Tactic.SplitIfs
import Mathlib.Tactic.Tauto
import ContractAbi.Schema.Category

/-!
# The rules for types, one at a time

Which rule gives the category of a type depends on the rules before it. A text in parentheses is
neither an integer of a width nor a word, and it has one constructor at most, so that the rule of
the constructor applies (`ofToken_maybe`, `ofToken_either`, `ofToken_varUInteger`). A text that no
rule fits is looked through for the words that make it a cell (`ofToken_of_unruled`).
-/

namespace ContractAbi

theorem Text.contains_eq_true_iff {part whole : List Char} :
    contains part whole = true ↔ part <:+: whole := by
  induction whole with
  | nil => simp [contains]
  | cons c cs ih => simp [contains, ih, List.infix_cons_iff]

namespace Category

open Text

/-- A name with its arguments, as constructors are written. -/
def applied (name args : List Char) : List Char := '(' :: (name ++ ' ' :: (args ++ [')']))

/-- A character that is neither blank nor a parenthesis. -/
def IsPlain (c : Char) : Prop := isBlank c = false ∧ c ≠ '(' ∧ c ≠ ')'

/-- For texts that are written out. -/
theorem plain_of_all {cs : List Char}
    (all : (cs.all fun c => !isBlank c && c != '(' && c != ')') = true) : ∀ c ∈ cs, IsPlain c := by
  simpa [IsPlain, and_assoc] using all

/-- The category of a text that no rule fits. -/
def ofParts (token : List Char) : Category :=
  if contains "Cell".toList token then .cell
  else if contains "Slice".toList token then .slice
  else if contains "Builder".toList token then .builder
  else .unknown (String.ofList token)

/-- One of the arguments of a constructor, counted from zero: no text where it is missing. -/
def arm (args : List Char) (i : Nat) : List Char := (splitArgs 0 [] args)[i]?.getD []

variable {name token args : List Char} {c : Category}

/-- The space in front of the arguments may only be missing where there are none. -/
theorem constructorArgs?_eq_some_iff : constructorArgs? name token = some args ↔
    (args = [] ∧ token = '(' :: (name ++ [')'])) ∨ token = applied name args := by
  simp only [constructorArgs?, Option.bind_eq_bind, Option.bind_eq_some_iff,
    dropHead?_eq_some_iff, dropTail?_eq_some_iff]
  constructor
  · intro steps
    obtain ⟨opened, parenthesis, inner, closed, rest, named, found⟩ := steps
    subst parenthesis closed named
    split at found
    · rename_i empty
      cases found
      simp [empty]
    · rw [dropHead?_eq_some_iff] at found
      subst found
      simp [applied]
  · intro written
    rcases written with ⟨rfl, rfl⟩ | rfl
    · exact ⟨name ++ [')'], rfl, name, rfl, [], by simp, rfl⟩
    · exact ⟨_, rfl, name ++ ' ' :: args, by simp, ' ' :: args, rfl, rfl⟩

theorem constructorArgs?_applied (name args : List Char) :
    constructorArgs? name (applied name args) = some args :=
  constructorArgs?_eq_some_iff.mpr (.inr rfl)

theorem exists_of_constructorArgs? (found : constructorArgs? name token = some args) :
    ∃ behind, token = '(' :: (name ++ behind) := by
  rcases constructorArgs?_eq_some_iff.mp found with ⟨-, rfl⟩ | rfl
  · exact ⟨_, rfl⟩
  · exact ⟨_, rfl⟩

/-- Names that start with different letters do not name the same constructor. -/
theorem constructorArgs?_eq_none {other : List Char}
    (found : constructorArgs? name token = some args)
    (apart : ∀ behind more, name ++ behind ≠ other ++ more) :
    constructorArgs? other token = none := by
  rw [Option.eq_none_iff_forall_ne_some]
  intro others found'
  obtain ⟨behind, rfl⟩ := exists_of_constructorArgs? found
  obtain ⟨more, same⟩ := exists_of_constructorArgs? found'
  exact apart behind more (List.cons_inj_right _ |>.mp same)

/-- The words of the rule for single words. -/
def literalWords : List String :=
  ["bool", "Bool", "msgaddress", "MsgAddress", "MsgAddressInt", "address", "text", "string"]

theorem mem_of_literal? (found : literal? token = some c) : String.ofList token ∈ literalWords := by
  simp only [literal?] at found
  simp only [literalWords, List.mem_cons, List.not_mem_nil, or_false]
  split_ifs at found with boolean address text
  · tauto
  · tauto
  · tauto

/-- Single words have neither blanks nor parentheses in them. -/
theorem plain_of_literal? (found : literal? token = some c) : ∀ d ∈ token, IsPlain d := by
  have plain : ∀ word ∈ literalWords,
      (word.toList.all fun c => !isBlank c && c != '(' && c != ')') = true := by decide
  have letters := plain_of_all (plain _ (mem_of_literal? found))
  rwa [String.toList_ofList] at letters

theorem exists_digits_of_sized? {signed : Bool} {widest : Nat} {digits : List Char}
    (found : sized? signed widest digits = some c) : Decimal.isDigits digits = true := by
  cases digitsOnly : Decimal.isDigits digits with
  | true => rfl
  | false => simp [sized?, Decimal.digits?, digitsOnly] at found

/-- An integer of a width is `uint` or `int` and digits. -/
theorem exists_of_fixedInt? (found : fixedInt? token = some c) :
    ∃ start ∈ ["uint", "int"], ∃ digits, token = start.toList ++ digits ∧
      Decimal.isDigits digits = true := by
  unfold fixedInt? at found
  split at found
  · rename_i unsigned
    rw [dropHead?_eq_some_iff] at unsigned
    exact ⟨"uint", by simp, _, unsigned, exists_digits_of_sized? found⟩
  · split at found
    · rename_i signed
      rw [dropHead?_eq_some_iff] at signed
      exact ⟨"int", by simp, _, signed, exists_digits_of_sized? found⟩
    · cases found

theorem fixedInt?_parenthesis (cs : List Char) : fixedInt? ('(' :: cs) = none := rfl

theorem literal?_parenthesis (cs : List Char) : literal? ('(' :: cs) = none := by
  rw [Option.eq_none_iff_forall_ne_some]
  intro c found
  exact (plain_of_literal? found '(' List.mem_cons_self).2.1 rfl

/-- The rule of sized integers is the first one. -/
theorem ofToken_of_fixedInt? (found : fixedInt? token = some c) : ofToken token = c := by
  rw [ofToken]
  simp only [found]

theorem ofToken_of_literal? (unsized : fixedInt? token = none) (found : literal? token = some c) :
    ofToken token = c := by
  rw [ofToken]
  simp only [unsized, found]

/-- An optional type is read with its argument. -/
theorem ofToken_maybe (found : constructorArgs? "Maybe".toList token = some args) :
    ofToken token = .optional (ofChars args) := by
  obtain ⟨behind, rfl⟩ := exists_of_constructorArgs? found
  rw [ofToken]
  simp only [fixedInt?_parenthesis, literal?_parenthesis]
  split
  · rename_i found'
    cases found.symm.trans found'
    rfl
  · rename_i missing
    cases found.symm.trans missing

theorem ofChars_nil : ofChars [] = .unknown "" := by
  rw [ofChars, ofToken]
  rfl

/-- An arm that is missing has the category of no text. -/
theorem ofToken_either (found : constructorArgs? "Either".toList token = some args) :
    ofToken token = .either (ofChars (arm args 0)) (ofChars (arm args 1)) := by
  have noMaybe : constructorArgs? "Maybe".toList token = none :=
    constructorArgs?_eq_none found (by simp)
  obtain ⟨behind, rfl⟩ := exists_of_constructorArgs? found
  rw [ofToken]
  simp only [fixedInt?_parenthesis, literal?_parenthesis]
  split
  · rename_i maybe
    cases maybe.symm.trans noMaybe
  · split
    · rename_i found'
      cases found.symm.trans found'
      rw [← ofChars_nil]
      split <;> rename_i pieces <;> rw [arm, arm, pieces] <;> rfl
    · rename_i missing
      cases found.symm.trans missing

/-- The bound of a variable integer, or its default where none is written. -/
theorem ofToken_varUInteger (found : constructorArgs? "VarUInteger".toList token = some args) :
    ofToken token = .varUInt ((Decimal.natural? maxWord (trim args)).getD defaultBound) := by
  have noMaybe : constructorArgs? "Maybe".toList token = none :=
    constructorArgs?_eq_none found (by simp)
  have noEither : constructorArgs? "Either".toList token = none :=
    constructorArgs?_eq_none found (by simp)
  obtain ⟨behind, rfl⟩ := exists_of_constructorArgs? found
  rw [ofToken]
  simp only [fixedInt?_parenthesis, literal?_parenthesis]
  split
  · rename_i maybe
    cases maybe.symm.trans noMaybe
  · split
    · rename_i either
      cases either.symm.trans noEither
    · simp only [found]

theorem ofToken_of_unruled (unsized : fixedInt? token = none) (noWord : literal? token = none)
    (noMaybe : constructorArgs? "Maybe".toList token = none)
    (noEither : constructorArgs? "Either".toList token = none)
    (noVarUInteger : constructorArgs? "VarUInteger".toList token = none) :
    ofToken token = ofParts token := by
  rw [ofToken]
  simp only [unsized, noWord]
  split
  · rename_i maybe
    cases maybe.symm.trans noMaybe
  · split
    · rename_i either
      cases either.symm.trans noEither
    · simp only [noVarUInteger]
      rfl

end Category

end ContractAbi
