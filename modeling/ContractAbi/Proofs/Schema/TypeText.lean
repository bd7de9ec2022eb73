import ContractAbi.Proofs.Schema.TypeRules
import ContractAbi.Proofs.Text.Ascii
import ContractAbi.Proofs.Text.Decimal
import ContractAbi.Proofs.Text.Parts
import ContractAbi.Schema.TypeExpression

/-!
# Type expressions mean what is written

The category of a written type is that of the expression, however deep it is nested
(`Category.ofText_text`). What has to be seen is that a constructor finds its own arguments: the
text of an expression stands as one argument (`TypeExpr.isArgument_text`), for trimming takes
nothing off it, and the splitter goes through it without a cut, since its spaces stand in
parentheses that it closes itself.
-/

namespace ContractAbi

open Text

namespace Category

/-- From this depth on the splitter goes through the text without a cut and is back at the depth
where it began. -/
def RunsThrough (low : Int) (cs : List Char) : Prop :=
  ∀ depth ≥ low, ∀ piece rest,
    splitArgs depth piece (cs ++ rest) = splitArgs depth (cs.reverse ++ piece) rest

namespace RunsThrough

variable {low : Int} {cs ds : List Char}

theorem append (h : RunsThrough low cs) (h' : RunsThrough low ds) : RunsThrough low (cs ++ ds) := by
  intro depth deep piece rest
  rw [List.append_assoc, h depth deep, h' depth deep, List.reverse_append, List.append_assoc]

theorem mono (h : RunsThrough low cs) {high : Int} (le : low ≤ high) : RunsThrough high cs := by
  intro depth deep
  exact h depth (Int.le_trans le deep)

theorem letters (plain : ∀ c ∈ cs, IsPlain c) : RunsThrough low cs := by
  intro depth _ piece rest
  induction cs generalizing piece with
  | nil => rfl
  | cons c cs ih =>
    obtain ⟨letter, noOpen, noClose⟩ := plain c List.mem_cons_self
    have noSpace : c ≠ ' ' := by
      intro space
      rw [space, isBlank_space] at letter
      cases letter
    have tail := ih (fun d member => plain d (List.mem_cons_of_mem _ member)) (c :: piece)
    simp [splitArgs, noSpace, noOpen, noClose, tail]

/-- Inside of parentheses a space does not cut. -/
theorem space (inside : 1 ≤ low) : RunsThrough low [' '] := by
  intro depth deep piece rest
  have opened : depth ≠ 0 := by omega
  simp [splitArgs, opened]

theorem parentheses (h : RunsThrough (low + 1) cs) : RunsThrough low ('(' :: (cs ++ [')'])) := by
  intro depth deep piece rest
  have inner := h (depth + 1) (by omega) ('(' :: piece) (')' :: rest)
  simp [splitArgs, inner]

/-- Two texts with a space between them are cut at the space. -/
theorem splitArgs_space (h : RunsThrough 0 cs) (h' : RunsThrough 0 ds) (nonempty : cs ≠ [])
    (nonempty' : ds ≠ []) : splitArgs 0 [] (cs ++ ' ' :: ds) = [cs, ds] := by
  have second := h' 0 (Int.le_refl 0) [] []
  rw [List.append_nil, List.append_nil] at second
  rw [h 0 (Int.le_refl 0), splitArgs]
  simp [nonempty, nonempty', second, splitArgs]

end RunsThrough

/-- A text that stands as one argument: nothing is trimmed off it, and it is not cut. -/
structure IsArgument (cs : List Char) : Prop where
  uniform : IsUniform cs
  runsThrough : RunsThrough 0 cs

namespace IsArgument

variable {name cs ds : List Char}

theorem of_plain (nonempty : cs ≠ []) (plain : ∀ c ∈ cs, IsPlain c) : IsArgument cs where
  uniform := .word nonempty fun c member => (plain c member).1
  runsThrough := .letters plain

theorem ne_nil (h : IsArgument cs) : cs ≠ [] := by
  obtain ⟨c, rest, start, -⟩ := h.uniform.head
  rw [start]
  exact List.cons_ne_nil c rest

/-- A constructor with its arguments is one argument again. -/
theorem applied (plain : ∀ c ∈ name, IsPlain c) (uniform : IsUniform cs) (h : RunsThrough 1 cs) :
    IsArgument (applied name cs) where
  uniform := by
    have opened : ∀ c ∈ '(' :: name, isBlank c = false := by
      exact List.forall_mem_cons.mpr ⟨rfl, fun c member => (plain c member).1⟩
    have closed : IsUniform [')'] :=
      .word (List.cons_ne_nil _ _) (List.forall_mem_singleton.mpr rfl)
    exact .next (List.cons_ne_nil _ _) opened (uniform.concat closed)
  runsThrough := by
    have space : RunsThrough 1 [' '] := .space (Int.le_refl 1)
    have inner := (RunsThrough.letters plain).append (space.append h)
    have whole := RunsThrough.parentheses (show RunsThrough (0 + 1) _ from inner)
    rwa [List.append_assoc] at whole

/-- So are two arguments with a space between them, but only inside of parentheses. -/
theorem runsThrough_pair (h : IsArgument cs) (h' : IsArgument ds) :
    RunsThrough 1 (cs ++ ' ' :: ds) := by
  have le : (0 : Int) ≤ 1 := by decide
  have space : RunsThrough 1 [' '] := .space (Int.le_refl 1)
  exact (h.runsThrough.mono le).append (space.append (h'.runsThrough.mono le))

theorem ofChars_eq (h : IsArgument cs) : ofChars cs = ofToken cs := by
  rw [ofChars, h.uniform.trim_eq]

end IsArgument

end Category

namespace TypeExpr

open Category

theorem toList_text_uint (bits : Nat) (inRange : 1 ≤ bits ∧ bits ≤ 256) :
    (uint bits inRange).text.toList = "uint".toList ++ Nat.toDigits 10 bits := by
  simp [text, Nat.toString_eq_repr, Nat.toList_repr]

theorem toList_text_int (bits : Nat) (inRange : 1 ≤ bits ∧ bits ≤ 257) :
    (int bits inRange).text.toList = "int".toList ++ Nat.toDigits 10 bits := by
  simp [text, Nat.toString_eq_repr, Nat.toList_repr]

theorem toList_text_foreign (w : ForeignWord) : (foreign w).text.toList = w.letters :=
  String.toList_ofList

theorem toList_text_maybe (inner : TypeExpr) :
    (maybe inner).text.toList = applied "Maybe".toList inner.text.toList := by
  simp [text, applied]

theorem toList_text_either (left right : TypeExpr) :
    (either left right).text.toList =
      applied "Either".toList (left.text.toList ++ ' ' :: right.text.toList) := by
  simp [text, applied]

theorem toList_text_varUInteger (bound : Nat) (isWord : bound ≤ maxWord) :
    (varUInteger bound isWord).text.toList =
      applied "VarUInteger".toList (Nat.toDigits 10 bound) := by
  simp [text, applied, Nat.toString_eq_repr, Nat.toList_repr]

theorem isPlain_of_isWordChar {c : Char} (word : isWordChar c = true) : IsPlain c := by
  have plain := forall_of_ascii (q := fun c => !isBlank c && c != '(' && c != ')')
    toNat_lt_of_isWordChar (by decide) word
  simpa [IsPlain, and_assoc] using plain

theorem isPlain_toDigits (n : Nat) : ∀ c ∈ Nat.toDigits 10 n, IsPlain c := by
  intro c member
  apply isPlain_of_isWordChar
  simp [isWordChar, Char.isAlphanum, Decimal.isDigit_of_mem_toDigits member]

theorem isPlain_toString (w : TypeWord) : ∀ c ∈ w.toString.toList, IsPlain c := by
  apply plain_of_all
  cases w <;> decide

theorem isArgument_sized {start : String} (plain : ∀ c ∈ start.toList, IsPlain c) (n : Nat) :
    IsArgument (start.toList ++ Nat.toDigits 10 n) := by
  refine .of_plain ?_ (List.forall_mem_append.mpr ⟨plain, isPlain_toDigits n⟩)
  simp [Nat.toDigits_ne_nil]

/-- The text of a type can be the argument of another one. -/
theorem isArgument_text (e : TypeExpr) : IsArgument e.text.toList := by
  induction e with
  | uint bits inRange =>
    rw [toList_text_uint]
    exact isArgument_sized (plain_of_all (by decide)) bits
  | int bits inRange =>
    rw [toList_text_int]
    exact isArgument_sized (plain_of_all (by decide)) bits
  | word w =>
    have nonempty : w.toString.toList ≠ [] := by cases w <;> decide
    exact .of_plain nonempty (isPlain_toString w)
  | foreign w =>
    rw [toList_text_foreign]
    exact .of_plain w.nonempty w.plain
  | maybe inner ih =>
    rw [toList_text_maybe]
    exact .applied (plain_of_all (by decide)) ih.uniform (ih.runsThrough.mono (by decide))
  | either left right first second =>
    rw [toList_text_either]
    exact .applied (plain_of_all (by decide)) (first.uniform.append second.uniform)
      (first.runsThrough_pair second)
  | varUInteger bound isWord =>
    have digits : IsArgument (Nat.toDigits 10 bound) :=
      .of_plain Nat.toDigits_ne_nil (isPlain_toDigits bound)
    rw [toList_text_varUInteger]
    exact .applied (plain_of_all (by decide)) digits.uniform
      (digits.runsThrough.mono (by decide))

end TypeExpr

namespace Category

theorem sized?_toDigits {bits widest : Nat} (signed : Bool) (inRange : 1 ≤ bits ∧ bits ≤ widest)
    (isWord : widest ≤ maxWord) :
    sized? signed widest (Nat.toDigits 10 bits) = some (.integer bits signed) := by
  simp [sized?, Decimal.digits?_toDigits (Nat.le_trans inRange.2 isWord), inRange]

theorem fixedInt?_uint {bits : Nat} (inRange : 1 ≤ bits ∧ bits ≤ 256) :
    fixedInt? ("uint".toList ++ Nat.toDigits 10 bits) = some (.integer bits false) :=
  sized?_toDigits false inRange (by decide)

theorem fixedInt?_int {bits : Nat} (inRange : 1 ≤ bits ∧ bits ≤ 257) :
    fixedInt? ("int".toList ++ Nat.toDigits 10 bits) = some (.integer bits true) :=
  sized?_toDigits true inRange (by decide)

/-- Every literal word is the word of a type. -/
theorem exists_typeWord : ∀ word ∈ literalWords, ∃ w : TypeWord, w.toString = word := by
  simp only [literalWords, List.forall_mem_cons]
  exact ⟨⟨.bool, rfl⟩, ⟨.capitalBool, rfl⟩, ⟨.lowerMsgAddress, rfl⟩, ⟨.msgAddress, rfl⟩,
    ⟨.msgAddressInt, rfl⟩, ⟨.address, rfl⟩, ⟨.text, rfl⟩, ⟨.string, rfl⟩, List.forall_mem_nil _⟩

/-- No rule fits a word without a meaning. -/
theorem ofToken_foreign (w : ForeignWord) :
    ofToken w.letters = .unknown (String.ofList w.letters) := by
  have unsized : fixedInt? w.letters = none := by
    rw [Option.eq_none_iff_forall_ne_some]
    intro c found
    obtain ⟨start, known, digits, split, isDigits⟩ := exists_of_fixedInt? found
    rw [w.unsized start known digits split] at isDigits
    cases isDigits
  have noWord : literal? w.letters = none := by
    rw [Option.eq_none_iff_forall_ne_some]
    intro c found
    obtain ⟨word, same⟩ := exists_typeWord _ (mem_of_literal? found)
    apply w.noWord word
    rw [same, String.toList_ofList]
  have noConstructor (name : List Char) : constructorArgs? name w.letters = none := by
    rw [Option.eq_none_iff_forall_ne_some]
    intro args found
    obtain ⟨behind, split⟩ := exists_of_constructorArgs? found
    exact (w.plain '(' (split ▸ List.mem_cons_self)).2.1 rfl
  have noPart : ∀ part ∈ ["Cell", "Slice", "Builder"], contains part.toList w.letters = false := by
    intro part known
    rw [Bool.eq_false_iff, ne_eq, contains_eq_true_iff]
    exact w.noPart part known
  rw [ofToken_of_unruled unsized noWord (noConstructor _) (noConstructor _) (noConstructor _),
    ofParts, noPart "Cell" (by simp), noPart "Slice" (by simp), noPart "Builder" (by simp)]
  rfl

theorem ofToken_typeWord (w : TypeWord) : ofToken w.toString.toList = w.category := by
  cases w <;> decide +kernel

/-- The text of a type is read as its category, by induction on what the type is built of. -/
theorem ofToken_text (e : TypeExpr) : ofToken e.text.toList = e.category := by
  induction e with
  | uint bits inRange =>
    rw [TypeExpr.toList_text_uint]
    exact ofToken_of_fixedInt? (fixedInt?_uint inRange)
  | int bits inRange =>
    rw [TypeExpr.toList_text_int]
    exact ofToken_of_fixedInt? (fixedInt?_int inRange)
  | word w => exact ofToken_typeWord w
  | foreign w =>
    rw [TypeExpr.toList_text_foreign]
    exact ofToken_foreign w
  | maybe inner ih =>
    rw [TypeExpr.toList_text_maybe, ofToken_maybe (constructorArgs?_applied _ _),
      inner.isArgument_text.ofChars_eq, ih]
    rfl
  | either left right first second =>
    -- The space between the arms is the first one outside parentheses.
    have arms := left.isArgument_text.runsThrough.splitArgs_space
      right.isArgument_text.runsThrough left.isArgument_text.ne_nil right.isArgument_text.ne_nil
    rw [TypeExpr.toList_text_either, ofToken_either (constructorArgs?_applied _ _), arm, arm,
      arms]
    change Category.either (ofChars left.text.toList) (ofChars right.text.toList) = _
    rw [left.isArgument_text.ofChars_eq, right.isArgument_text.ofChars_eq, first, second]
    rfl
  | varUInteger bound isWord =>
    have digits : IsUniform (Nat.toDigits 10 bound) :=
      .word Nat.toDigits_ne_nil fun c member => (TypeExpr.isPlain_toDigits bound c member).1
    rw [TypeExpr.toList_text_varUInteger, ofToken_varUInteger (constructorArgs?_applied _ _),
      digits.trim_eq, Decimal.natural?_toDigits isWord]
    rfl

/-- A type expression that is written with single spaces has the category that its structure gives
it. -/
theorem ofText_text (e : TypeExpr) : ofText e.text = e.category := by
  rw [ofText, e.isArgument_text.ofChars_eq, ofToken_text]

/-- The word of a type that no rule knows. -/
def fullContent : ForeignWord where
  letters := "FullContent".toList
  nonempty := by decide
  plain := plain_of_all (by decide)
  noPart := by
    intro part known
    rw [← contains_eq_true_iff]
    revert part
    decide
  noWord := by
    intro word
    cases word <;> decide
  unsized := by
    intro start known digits split
    simp only [List.mem_cons, List.not_mem_nil, or_false] at known
    rcases known with rfl | rfl <;> simp at split

example : ofText "(Either FullContent (Maybe (VarUInteger 32)))" =
    (TypeExpr.either (.foreign fullContent) (.maybe (.varUInteger 32 (by decide)))).category := by
  decide +kernel

end Category

end ContractAbi
