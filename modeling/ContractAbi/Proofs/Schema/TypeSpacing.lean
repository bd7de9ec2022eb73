import Mathlib.Data.List.Forall2
import ContractAbi.Proofs.Schema.TypeRules
import ContractAbi.Proofs.Text.Decimal
import ContractAbi.Proofs.Text.SpaceRuns

/-!
# Types that are laid out differently

Where a type is written with wide spaces, its category is the one that it has with single spaces,
but for the texts of the parts that no rule knows (`Category.ofText_normalize`). This holds for
spaces only: constructors and the splitter look for nothing else, so that with another blank behind
its name a constructor is not seen, and a type over several lines becomes another category
(`Category.ofText_normalize_tab`).
-/

namespace ContractAbi

open Text

namespace Category

/-- The category with single spaces in the texts of its unknown parts. -/
def normalized : Category → Category
  | .optional inner => .optional (normalized inner)
  | .either left right => .either (normalized left) (normalized right)
  | .unknown raw => .unknown (Text.normalize raw)
  | c => c

variable {name token token' args args' : List Char} {c : Category}

/-! ### Rules for texts without spaces -/

theorem fixedInt?_spaced (token : List Char) (spaced : ' ' ∈ token) : fixedInt? token = none := by
  rw [Option.eq_none_iff_forall_ne_some]
  intro c found
  obtain ⟨start, known, digits, split, isDigits⟩ := exists_of_fixedInt? found
  subst split
  rcases List.mem_append.mp spaced with inName | inDigits
  · have plain : ∀ start ∈ ["uint", "int"], ' ' ∉ start.toList := by decide
    exact plain start known inName
  · simp only [Decimal.isDigits, Bool.and_eq_true, List.all_eq_true] at isDigits
    exact absurd (isDigits.2 ' ' inDigits) (by decide)

theorem literal?_spaced (token : List Char) (spaced : ' ' ∈ token) : literal? token = none := by
  rw [Option.eq_none_iff_forall_ne_some]
  intro c found
  have letter := (plain_of_literal? found ' ' spaced).1
  rw [isBlank_space] at letter
  cases letter

theorem natural?_spaced (limit : Nat) (text : List Char) (spaced : ' ' ∈ text) :
    Decimal.natural? limit text = none := by
  have noDigits (digits : List Char) (spaced : ' ' ∈ digits) :
      Decimal.digits? limit digits = none := by
    have stops : digits.all Char.isDigit = false := by
      rw [List.all_eq_false]
      exact ⟨' ', spaced, by decide⟩
    simp [Decimal.digits?, Decimal.isDigits, stops]
  unfold Decimal.natural?
  split
  · exact noDigits _ (by simpa using spaced)
  · exact noDigits _ spaced

/-- A sized integer has no text to normalize. -/
theorem normalized_of_fixedInt? (found : fixedInt? token = some c) : c.normalized = c := by
  simp only [fixedInt?, sized?] at found
  repeat' split at found
  all_goals cases found
  all_goals rfl

theorem normalized_of_literal? (found : literal? token = some c) : c.normalized = c := by
  simp only [literal?] at found
  split_ifs at found
  all_goals cases found
  all_goals rfl

/-! ### Arguments with runs of spaces between them -/

/-- A character that does not cut goes to the piece. What depth comes next is up to it alone. -/
theorem exists_splitArgs_cons {ch : Char} {depth : Int} (whole : ¬(ch = ' ' ∧ depth = 0)) :
    ∃ next, ∀ piece rest,
      splitArgs depth piece (ch :: rest) = splitArgs next (ch :: piece) rest := by
  refine ⟨if ch = '(' then depth + 1 else if ch = ')' then depth - 1 else depth, ?_⟩
  intro piece rest
  rw [splitArgs, if_neg whole]

/-- Outside of parentheses a run of spaces ends the piece that is open. -/
theorem splitArgs_spaces_outside (k : Nat) (piece rest : List Char) :
    splitArgs 0 piece (List.replicate (k + 1) ' ' ++ rest) =
      splitArgs 0 piece [] ++ splitArgs 0 [] rest := by
  have cut (piece rest : List Char) :
      splitArgs 0 piece (' ' :: rest) = splitArgs 0 piece [] ++ splitArgs 0 [] rest := by
    by_cases closed : piece = [] <;> simp [splitArgs, closed]
  induction k generalizing piece with
  | zero => exact cut piece rest
  | succ k ih =>
    rw [List.replicate_succ, List.cons_append, cut, ih]
    rfl

/-- Inside of parentheses it belongs to the piece. -/
theorem splitArgs_spaces_inside {depth : Int} (opened : depth ≠ 0) (k : Nat)
    (piece rest : List Char) :
    splitArgs depth piece (List.replicate k ' ' ++ rest) =
      splitArgs depth (List.replicate k ' ' ++ piece) rest := by
  induction k generalizing piece with
  | zero => rfl
  | succ k ih =>
    have turned : List.replicate k ' ' ++ ' ' :: piece = List.replicate (k + 1) ' ' ++ piece := by
      rw [List.replicate_succ', List.append_assoc, List.singleton_append]
    rw [List.replicate_succ, List.cons_append, splitArgs]
    simp [opened, ih, turned, List.replicate_succ]

/-- Arguments are split at the same places, however wide the spaces are. -/
theorem forall₂_splitArgs {cs ds piece piece' : List Char} (depth : Int)
    (same : SameButWidth cs ds) (opened : SameButWidth piece piece') :
    List.Forall₂ SameButWidth (splitArgs depth piece cs) (splitArgs depth piece' ds) := by
  have last {depth : Int} {piece piece' : List Char} (opened : SameButWidth piece piece') :
      List.Forall₂ SameButWidth (splitArgs depth piece []) (splitArgs depth piece' []) := by
    by_cases closed : piece = []
    · simp [splitArgs, closed, opened.eq_nil_iff.mp closed]
    · have closed' := mt opened.eq_nil_iff.mpr closed
      simpa [splitArgs, closed, closed'] using opened.reverse
  induction same generalizing depth piece piece' with
  | nil => exact last opened
  | @letter c _ _ noSpace _ ih =>
    have whole : ¬(c = ' ' ∧ depth = 0) := fun cut => noSpace cut.1
    obtain ⟨next, goesOn⟩ := exists_splitArgs_cons whole
    rw [goesOn, goesOn]
    exact ih next (.letter noSpace opened)
  | spaces m n _ ih =>
    by_cases outside : depth = 0
    · subst outside
      rw [splitArgs_spaces_outside, splitArgs_spaces_outside]
      exact List.rel_append (last opened) (ih 0 .nil)
    · rw [splitArgs_spaces_inside outside, splitArgs_spaces_inside outside]
      exact ih depth (.spaces m n opened)

theorem splitArgs_space (args : List Char) :
    splitArgs 0 [] (' ' :: args) = splitArgs 0 [] args := by
  simp [splitArgs]

theorem sameButWidth_arm (same : SameButWidth (' ' :: args) (' ' :: args')) (i : Nat) :
    SameButWidth (arm args i) (arm args' i) := by
  have pieces := forall₂_splitArgs 0 same .nil
  rw [splitArgs_space, splitArgs_space] at pieces
  rw [arm, arm]
  generalize splitArgs 0 [] args = ls, splitArgs 0 [] args' = rs at pieces
  induction pieces generalizing i with
  | nil => exact .nil
  | cons first _ ih =>
    cases i with
    | zero => exact first
    | succ i => exact ih i

theorem infix_of_mem_splitArgs {depth : Int} {piece cs arg : List Char}
    (member : arg ∈ splitArgs depth piece cs) : arg <:+: piece.reverse ++ cs := by
  induction cs generalizing depth piece with
  | nil =>
    rw [splitArgs] at member
    split_ifs at member with closed
    · cases member
    · rw [List.mem_singleton.mp member]
      exact (List.prefix_append _ _).isInfix
  | cons c cs ih =>
    have behind : [].reverse ++ cs <:+: piece.reverse ++ c :: cs :=
      ⟨piece.reverse ++ [c], [], by simp⟩
    by_cases cut : c = ' ' ∧ depth = 0
    · rw [splitArgs, if_pos cut] at member
      split_ifs at member with closed
      · exact (ih member).trans behind
      · rcases List.mem_cons.mp member with rfl | later
        · exact (List.prefix_append _ _).isInfix
        · exact (ih later).trans behind
    · obtain ⟨next, goesOn⟩ := exists_splitArgs_cons cut
      rw [goesOn] at member
      have further := ih member
      rwa [List.reverse_cons, List.append_assoc, List.singleton_append] at further

theorem isInfix_arm (args : List Char) (i : Nat) : arm args i <:+: args := by
  rw [arm]
  cases found : (splitArgs 0 [] args)[i]? with
  | none => exact List.nil_infix
  | some piece => exact infix_of_mem_splitArgs (List.mem_of_getElem? found)

/-! ### Constructors with runs of spaces in them -/

theorem exists_constructorArgs? (noSpace : ' ' ∉ name) (same : SameButWidth token token')
    (found : constructorArgs? name token = some args) :
    ∃ args', constructorArgs? name token' = some args' ∧
      SameButWidth (' ' :: args) (' ' :: args') := by
  rcases constructorArgs?_eq_some_iff.mp found with ⟨rfl, rfl⟩ | rfl
  · have unchanged := same.eq_of_noSpace (by simpa using noSpace)
    exact ⟨[], by rw [← unchanged, found], SameButWidth.nil.space⟩
  · have start : ' ' ∉ '(' :: name := by simpa using noSpace
    obtain ⟨rest, rfl, behind⟩ := same.exists_letters (w := '(' :: name) start
    have closed : SameButWidth ((' ' :: args) ++ [')']) rest := behind
    obtain ⟨front, rfl, inner⟩ := closed.exists_letters_end (by decide)
    obtain ⟨args', rfl⟩ := inner.exists_space
    exact ⟨args', constructorArgs?_applied name args', inner⟩

theorem constructorArgs?_eq_none_iff (noSpace : ' ' ∉ name) (same : SameButWidth token token') :
    constructorArgs? name token = none ↔ constructorArgs? name token' = none := by
  have transfer {token token'} (same : SameButWidth token token')
      (missing : constructorArgs? name token' = none) : constructorArgs? name token = none := by
    rw [Option.eq_none_iff_forall_ne_some]
    intro args found
    obtain ⟨args', found', -⟩ := exists_constructorArgs? noSpace same found
    rw [missing] at found'
    cases found'
  exact ⟨transfer same.symm, transfer same⟩

theorem infix_of_constructorArgs? (found : constructorArgs? name token = some args) :
    args <:+: token := by
  rcases constructorArgs?_eq_some_iff.mp found with ⟨rfl, -⟩ | rfl
  · exact List.nil_infix
  · exact ⟨'(' :: (name ++ [' ']), [')'], by simp [applied]⟩

/-- The rules that look for parts of a token do not see how wide its spaces are. -/
theorem ofParts_of_sameButWidth (same : SameButWidth token token') (neat : IsNeat token') :
    ofParts token' = (ofParts token).normalized := by
  have found (part : List Char) (nonempty : part ≠ []) (noSpace : ' ' ∉ part) :
      contains part token' = contains part token := (same.contains nonempty noSpace).symm
  have text : String.ofList token' = Text.normalize (String.ofList token) := by
    rw [Text.normalize, String.toList_ofList, same.squeeze, squeeze_neat neat]
  rw [ofParts, ofParts, found _ (by decide) (by decide), found _ (by decide) (by decide),
    found _ (by decide) (by decide), text]
  split_ifs <;> rfl

theorem length_trim_arm_le (args : List Char) (i : Nat) :
    (trim (arm args i)).length ≤ args.length :=
  Nat.le_trans (length_trim_le _) (isInfix_arm args i).length_le

/-- A text with single spaces has the category of the same text with wide spaces. -/
theorem ofChars_of_sameButWidth {cs ds : List Char} (same : SameButWidth (trim cs) (trim ds))
    (single : SingleSpaced ds) : ofChars ds = (ofChars cs).normalized := by
  -- Arguments and arms are parts of the trimmed text: shorter ones, with single spaces again.
  generalize size : (trim cs).length = n
  induction n using Nat.strongRecOn generalizing cs ds with
  | ind n ih =>
    have inner {name args args' part part' : List Char}
        (found : constructorArgs? name (trim cs) = some args)
        (found' : constructorArgs? name (trim ds) = some args')
        (shorter : (trim part).length ≤ args.length) (narrow : part' <:+: args')
        (samePart : SameButWidth (trim part) (trim part')) :
        ofChars part' = (ofChars part).normalized := by
      have isPart := (narrow.trans (infix_of_constructorArgs? found')).trans (isInfix_trim ds)
      have strictly := length_lt_of_constructorArgs? found
      exact ih _ (by omega) samePart (single.part isPart) rfl
    have sized := same.congr fixedInt?_spaced
    have word := same.congr literal?_spaced
    rw [ofChars, ofChars]
    cases isSized : fixedInt? (trim cs) with
    | some c =>
      rw [ofToken_of_fixedInt? isSized, ofToken_of_fixedInt? (sized ▸ isSized),
        normalized_of_fixedInt? isSized]
    | none =>
    cases isWord : literal? (trim cs) with
    | some c =>
      rw [ofToken_of_literal? isSized isWord, ofToken_of_literal? (sized ▸ isSized) (word ▸ isWord),
        normalized_of_literal? isWord]
    | none =>
    cases maybe : constructorArgs? "Maybe".toList (trim cs) with
    | some args =>
      obtain ⟨args', maybe', sameArgs⟩ := exists_constructorArgs? (by decide) same maybe
      rw [ofToken_maybe maybe, ofToken_maybe maybe', normalized,
        inner maybe maybe' (length_trim_le args) List.infix_rfl sameArgs.trim]
    | none =>
    cases either : constructorArgs? "Either".toList (trim cs) with
    | some args =>
      obtain ⟨args', either', sameArgs⟩ := exists_constructorArgs? (by decide) same either
      have arms (i : Nat) := inner either either' (length_trim_arm_le args i) (isInfix_arm args' i)
        (sameButWidth_arm sameArgs i).trim
      rw [ofToken_either either, ofToken_either either', normalized, arms 0, arms 1]
    | none =>
    cases bounded : constructorArgs? "VarUInteger".toList (trim cs) with
    | some args =>
      obtain ⟨args', bounded', sameArgs⟩ := exists_constructorArgs? (by decide) same bounded
      have bound := sameArgs.trim.congr (natural?_spaced maxWord)
      rw [trim_cons_space, trim_cons_space] at bound
      rw [ofToken_varUInteger bounded, ofToken_varUInteger bounded', bound]
      rfl
    | none =>
      have missing {name : List Char} (noSpace : ' ' ∉ name) :=
        (constructorArgs?_eq_none_iff noSpace same).mp
      rw [ofToken_of_unruled isSized isWord maybe either bounded,
        ofToken_of_unruled (sized ▸ isSized) (word ▸ isWord) (missing (by decide) maybe)
          (missing (by decide) either) (missing (by decide) bounded)]
      exact ofParts_of_sameButWidth same single.isNeat_trim

/-- The category of a type does not depend on how wide the spaces in it are, nor on the blanks
around it; only the texts of its unknown parts are kept as they are written. -/
theorem ofText_normalize (raw : String)
    (spaces : ∀ c ∈ trim raw.toList, isBlank c = true → c = ' ') :
    ofText (Text.normalize raw) = (ofText raw).normalized := by
  have single : SingleSpaced (squeeze raw.toList) := by
    rcases eq_or_ne (squeeze raw.toList) [] with empty | nonempty
    · rw [empty]
      exact singleSpaced_letters (by simp)
    · exact (isUniform_squeeze nonempty).singleSpaced
  have same := (sameButWidth_squeeze spaces).trim
  rw [trim_trim] at same
  rw [ofText, ofText, Text.normalize, String.toList_ofList]
  exact ofChars_of_sameButWidth same single

/-- In a text with wide spaces, one of which stands behind a constructor. -/
theorem ofText_normalize_wide :
    (∀ c ∈ trim " (Either  Foo (Maybe   ^Cell))".toList, isBlank c = true → c = ' ') ∧
      ofText (Text.normalize " (Either  Foo (Maybe   ^Cell))") =
        (ofText " (Either  Foo (Maybe   ^Cell))").normalized := by
  have spaces : ∀ c ∈ trim " (Either  Foo (Maybe   ^Cell))".toList, isBlank c = true → c = ' ' := by
    simp [trim, trimStart, trimEnd, isBlank]
  exact ⟨spaces, ofText_normalize _ spaces⟩

/-- A tab in a type changes its category. -/
theorem ofText_normalize_tab :
    ofText "(Maybe\t^Cell)" = .cell ∧
      ofText (Text.normalize "(Maybe\t^Cell)") = .optional .cell := by
  decide +kernel

end Category

end ContractAbi
