import ContractAbi.Naming.Namer
import ContractAbi.Proofs.Text.Ascii
import ContractAbi.Proofs.Text.Decimal

/-!
# Generated names are identifiers

`isIdentifier` is the rule of the generated language for names of ASCII characters. What is made of
the names of a description, whatever characters those have, obeys it. More is true: the raw form is
taken for the words of `keywords` alone, and these are never written without it (`Escaped`). That is
why names that differ still differ when their raw marks are dropped.
-/

namespace ContractAbi.Naming

open Text

/-- The words that the generated language keeps for itself, in use or not, in any edition. -/
def reservedWords : List String :=
  ["as", "break", "const", "continue", "crate", "else", "enum", "extern", "false", "fn", "for",
    "if", "impl", "in", "let", "loop", "match", "mod", "move", "mut", "pub", "ref", "return",
    "self", "Self", "static", "struct", "super", "trait", "true", "type", "unsafe", "use", "where",
    "while", "async", "await", "dyn", "abstract", "become", "box", "do", "final", "macro",
    "override", "priv", "typeof", "unsized", "virtual", "yield", "try", "gen"]

/-- The reserved words that stand for places in paths. They have no raw form. -/
def pathWords : List String := ["self", "Self", "super", "crate"]

/-- Letters, digits and underscores, of which the first is no digit; a lone underscore is no name.
-/
def isName : List Char → Bool
  | [] => false
  | c :: cs => !c.isDigit && (c :: cs).all isWordChar && (c :: cs) != ['_']

/-- A name that is no reserved word, or the raw form of a name. -/
def isIdentifier (ident : String) : Bool :=
  match ident.toList with
  | 'r' :: '#' :: name => isName name && !pathWords.contains (String.ofList name)
  | name => isName name && !reservedWords.contains ident

/-- How names are written here: one that is no keyword stands as it is, a keyword behind its mark.
-/
inductive Escaped : String → Prop
  | bare {ident : String} (name : isName ident.toList = true)
      (free : ident ∉ keywords ++ bareKeywords) : Escaped ident
  | raw {word : String} (keyword : word ∈ keywords) :
      Escaped (String.ofList (rawMark ++ word.toList))

theorem isName_iff {cs : List Char} :
    isName cs = true ↔ (∃ c, cs.head? = some c ∧ c.isDigit = false) ∧
      (∀ c ∈ cs, isWordChar c = true) ∧ cs ≠ ['_'] := by
  cases cs with
  | nil => simp [isName]
  | cons c cs => simp [isName, and_assoc]

theorem isName_of_mem_keywords {word : String} (keyword : word ∈ keywords) :
    isName word.toList = true := by
  have all : ∀ word ∈ keywords, isName word.toList = true := by decide +kernel
  exact all word keyword

/-! ### Raw marks -/

theorem dropRaw_of_word {cs : List Char} (word : ∀ c ∈ cs, isWordChar c = true) :
    dropRaw cs = cs := by
  unfold dropRaw
  split
  · rename_i rest
    have mark := word '#' (by simp)
    exact absurd mark (by decide)
  · rfl

theorem plain_of_isName {ident : String} (name : isName ident.toList = true) :
    plain ident = ident := by
  rw [plain, dropRaw_of_word (isName_iff.mp name).2.1, String.ofList_toList]

theorem plain_raw {word : String} (keyword : word ∈ keywords) :
    plain (String.ofList (rawMark ++ word.toList)) = word := by
  have name := isName_of_mem_keywords keyword
  rw [plain, String.toList_ofList]
  change String.ofList (dropRaw word.toList) = word
  exact plain_of_isName name

namespace Escaped

variable {ident other : String}

theorem isIdentifier (escaped : Escaped ident) : isIdentifier ident = true := by
  cases escaped with
  | bare name free =>
    have known : ∀ word ∈ reservedWords, word ∈ keywords ++ bareKeywords := by decide +kernel
    rw [Naming.isIdentifier]
    split
    · rename_i rest marked
      have mark := (isName_iff.mp name).2.1 '#' (by simp [marked])
      exact absurd mark (by decide)
    · have unreserved : ident ∉ reservedWords := fun reserved => free (known ident reserved)
      simp [name, unreserved]
  | raw keyword =>
    have noPath : ∀ word ∈ keywords, word ∉ pathWords := by decide +kernel
    rw [Naming.isIdentifier, String.toList_ofList]
    change (isName _ && _) = true
    simp [isName_of_mem_keywords keyword, noPath _ keyword]

/-- Without its mark a name still is one. -/
theorem isName_plain (escaped : Escaped ident) : isName (plain ident).toList = true := by
  cases escaped with
  | bare name _ =>
    rw [plain_of_isName name]
    exact name
  | raw keyword =>
    rw [plain_raw keyword]
    exact isName_of_mem_keywords keyword

/-- A name is written in raw form exactly if it is a keyword, so that its mark says nothing new. -/
theorem plain_inj (escaped : Escaped ident) (escaped' : Escaped other) :
    plain ident = plain other ↔ ident = other := by
  constructor
  · intro same
    cases escaped with
    | bare name free =>
      cases escaped' with
      | bare name' free' => rwa [plain_of_isName name, plain_of_isName name'] at same
      | raw keyword =>
        rw [plain_of_isName name, plain_raw keyword] at same
        exact absurd (List.mem_append_left _ (same ▸ keyword)) free
    | raw keyword =>
      cases escaped' with
      | bare name free =>
        rw [plain_of_isName name, plain_raw keyword] at same
        exact absurd (List.mem_append_left _ (same ▸ keyword)) free
      | raw keyword' =>
        rw [plain_raw keyword, plain_raw keyword'] at same
        rw [same]
  · intro same
    rw [same]

/-- A name that only its mark could set apart from a word that is no keyword has no mark. -/
theorem plain_notMem {taken : List String} (ordinary : ∀ word ∈ taken, word ∉ keywords)
    (escaped : Escaped ident) (free : ident ∉ taken) : plain ident ∉ taken := by
  cases escaped with
  | bare name _ =>
    rw [plain_of_isName name]
    exact free
  | raw keyword =>
    rw [plain_raw keyword]
    intro member
    exact ordinary _ member keyword

end Escaped

/-! ### Names with an underscore -/

/-- No keyword of more than one character has an underscore. -/
theorem escaped_append {front back : String} (name : isName front.toList = true)
    (letters : ∀ c ∈ back.toList, isWordChar c = true)
    (underscore : '_' ∈ (front ++ back).toList) : Escaped (front ++ back) := by
  obtain ⟨⟨c, head, noDigit⟩, word, more⟩ := isName_iff.mp name
  obtain ⟨cs, text⟩ := List.head?_eq_some_iff.mp head
  have alone : (front ++ back).toList ≠ ['_'] := by
    simp only [String.toList_append, text, List.cons_append, ne_eq, List.cons.injEq,
      List.append_eq_nil_iff]
    rintro ⟨rfl, rfl, -⟩
    exact more text
  apply Escaped.bare
  · rw [isName_iff]
    refine ⟨⟨c, ?_, noDigit⟩, ?_, alone⟩
    · simp [text]
    · rw [String.toList_append]
      exact List.forall_mem_append.mpr ⟨word, letters⟩
  · intro keyword
    have plainWords : ∀ word ∈ keywords ++ bareKeywords, '_' ∈ word.toList →
        word.toList = ['_'] := by decide +kernel
    exact alone (plainWords _ keyword underscore)

/-- A number behind a name leaves it a name. -/
theorem escaped_numbered {base : String} (name : isName base.toList = true) (n : Nat) :
    Escaped (Namer.numbered base n) := by
  rw [Namer.numbered, String.append_assoc]
  apply escaped_append name
  · intro c member
    rw [String.toList_append] at member
    rcases List.mem_append.mp member with mark | digit
    · rw [show c = '_' by simpa using mark]
      decide
    · have number : (toString n).toList = Nat.toDigits 10 n := Nat.toList_repr
      have isDigit := Decimal.isDigit_of_mem_toDigits (number ▸ digit)
      simp [isWordChar, Char.isAlphanum, isDigit]
  · simp

/-! ### Identifiers and their parts -/

theorem mem_sanitize {name : String} {c : Char} (among : c ∈ sanitize name) :
    c = '_' ∨ c ∈ name.toList ∧ isWordChar c = true := by
  have replaced : ∀ c ∈ name.toList.map fun c => if isWordChar c then c else '_',
      c = '_' ∨ c ∈ name.toList ∧ isWordChar c = true := by
    intro c member
    obtain ⟨x, listed, rfl⟩ := List.mem_map.mp member
    by_cases word : isWordChar x = true
    · simp [word, listed]
    · simp [word]
  unfold sanitize at among
  split at among
  · cases among
  · rename_i x xs text
    rw [text] at replaced
    split at among
    · rcases List.mem_cons.mp among with rfl | member
      · exact .inl rfl
      · exact replaced c member
    · exact replaced c among

theorem isWordChar_of_mem_sanitize {name : String} {c : Char} (among : c ∈ sanitize name) :
    isWordChar c = true := by
  rcases mem_sanitize among with rfl | ⟨-, word⟩
  · decide
  · exact word

theorem isDigit_head_sanitize {name : String} {c : Char} {cs : List Char}
    (text : sanitize name = c :: cs) : c.isDigit = false := by
  unfold sanitize at text
  split at text
  · cases text
  · split at text
    · cases text
      decide
    · rename_i noDigit
      cases text
      simpa using noDigit

/-- Every text becomes an identifier, as a raw one where it is a keyword. -/
theorem escaped_identifier (name : String) : Escaped (identifier name) := by
  unfold identifier
  cases text : sanitize name with
  | nil => exact .bare (by decide) (by decide)
  | cons c cs =>
    have letters : ∀ x ∈ c :: cs, isWordChar x = true := by
      intro x member
      exact isWordChar_of_mem_sanitize (text ▸ member)
    have nonempty : String.ofList (c :: cs) ≠ "" := by
      intro empty
      simpa using congrArg String.toList empty
    -- A keyword that cannot be raw gets an underscore, any other keyword its mark.
    simp only [nonempty, if_false]
    split
    · rename_i reserved
      have marked : ∀ word ∈ bareKeywords, isName (word ++ "_").toList = true ∧
          word ++ "_" ∉ keywords ++ bareKeywords := by decide +kernel
      exact .bare (marked _ reserved).1 (marked _ reserved).2
    · split
      · exact .raw ‹_›
      · rename_i noBare noKeyword
        apply Escaped.bare
        · rw [String.toList_ofList, isName_iff]
          refine ⟨⟨c, rfl, isDigit_head_sanitize text⟩, letters, ?_⟩
          intro alone
          rw [alone] at noBare
          exact noBare (by decide)
        · simp only [List.mem_append, not_or]
          exact ⟨noKeyword, noBare⟩

theorem isWordChar_of_mem_identifierPart {name : String} {c : Char}
    (among : c ∈ (identifierPart name).toList) : isWordChar c = true :=
  (isName_iff.mp (escaped_identifier name).isName_plain).2.1 c among

/-! ### Type names -/

/-- A text of word characters that starts with a capital letter. -/
def IsCapitalized (ident : String) : Prop :=
  (∃ c, ident.toList.head? = some c ∧ c.isUpper = true) ∧
    ∀ c ∈ ident.toList, isWordChar c = true

/-- The only keyword with a capital letter is `Self`. -/
theorem IsCapitalized.escaped {ident : String} (capital : IsCapitalized ident)
    (notSelf : ident ≠ "Self") : Escaped ident := by
  obtain ⟨⟨c, head, upper⟩, letters⟩ := capital
  apply Escaped.bare
  · rw [isName_iff]
    refine ⟨⟨c, head, ?_⟩, letters, ?_⟩
    · have cased : isWordChar c = true := letters c (List.mem_of_mem_head? head)
      have digit := forall_of_ascii (q := fun c => !(c.isUpper && c.isDigit))
        toNat_lt_of_isWordChar (by decide) cased
      simpa [upper] using digit
    · intro alone
      rw [alone] at head
      cases head
      exact absurd upper (by decide)
  · intro keyword
    have lower : ∀ word ∈ keywords ++ bareKeywords, word ≠ "Self" →
        word.toList.head?.any Char.isUpper = false := by decide +kernel
    have noCapital := lower ident keyword notSelf
    rw [head, Option.any_some, upper] at noCapital
    cases noCapital

theorem isWordChar_of_mem_joinWords {capital : Bool} {cs : List Char}
    (letters : ∀ c ∈ cs, isWordChar c = true) : ∀ c ∈ joinWords capital cs, isWordChar c = true := by
  induction cs generalizing capital with
  | nil => simp [joinWords]
  | cons x xs ih =>
    have word := letters x List.mem_cons_self
    have rest : ∀ c ∈ xs, isWordChar c = true := fun c member =>
      letters c (List.mem_cons_of_mem _ member)
    intro c member
    rw [joinWords] at member
    split at member
    · exact ih rest c member
    · rcases List.mem_cons.mp member with rfl | behind
      · split
        · exact forall_of_ascii (q := fun c => isWordChar c.toUpper) toNat_lt_of_isWordChar
            (by decide) word
        · exact word
      · exact ih rest c behind

/-- The first character behind underscores is a digit or becomes a capital letter. -/
theorem isUpper_head_joinWords {cs : List Char} (letters : ∀ c ∈ cs, isWordChar c = true)
    {c : Char} {rest : List Char} (text : joinWords true cs = c :: rest)
    (noDigit : c.isDigit = false) : c.isUpper = true := by
  induction cs with
  | nil => cases text
  | cons x xs ih =>
    rw [joinWords] at text
    split at text
    · exact ih (fun c member => letters c (List.mem_cons_of_mem _ member)) text
    · rename_i noUnderscore
      simp only [if_true, List.cons.injEq] at text
      obtain ⟨rfl, -⟩ := text
      have cased := forall_of_ascii
        (q := fun c => c == '_' || c.toUpper.isDigit || c.toUpper.isUpper) toNat_lt_of_isWordChar
        (by decide) (letters x List.mem_cons_self)
      simpa [noUnderscore, noDigit] using cased

/-- The names of types begin with a capital. -/
theorem isCapitalized_typeName (name : String) :
    IsCapitalized (typeName name) ∧ typeName name ≠ "Self" := by
  have letters : ∀ c ∈ joinWords true (sanitize name), isWordChar c = true :=
    isWordChar_of_mem_joinWords fun c => isWordChar_of_mem_sanitize
  -- Nothing is left of the name, or a digit comes first, or it would be `Self`, or it stands as it
  -- is.
  unfold typeName
  split
  · refine ⟨⟨⟨'T', rfl, by decide⟩, ?_⟩, by decide⟩
    exact List.all_eq_true.mp (by decide)
  · rename_i c cs text
    rw [text] at letters
    split
    · refine ⟨⟨⟨'T', by simp, by decide⟩, ?_⟩, ?_⟩
      · intro x member
        rw [String.toList_ofList] at member
        rcases List.mem_cons.mp member with rfl | behind
        · decide
        · exact letters x behind
      · intro same
        simpa using congrArg String.toList same
    · rename_i noDigit
      split
      · refine ⟨⟨⟨'S', rfl, by decide⟩, ?_⟩, by decide⟩
        exact List.all_eq_true.mp (by decide)
      · rename_i notSelf
        refine ⟨⟨⟨c, by simp, ?_⟩, ?_⟩, ?_⟩
        · exact isUpper_head_joinWords (fun c => isWordChar_of_mem_sanitize) text (by simpa using noDigit)
        · intro x member
          rw [String.toList_ofList] at member
          exact letters x member
        · intro same
          apply notSelf
          simpa using congrArg String.toList same

theorem escaped_typeName (name : String) : Escaped (typeName name) :=
  (isCapitalized_typeName name).1.escaped (isCapitalized_typeName name).2

/-- The name of the type that gathers the results of a get-method. -/
theorem escaped_resultName (name : String) : Escaped (typeName name ++ "Result") := by
  obtain ⟨⟨⟨c, head, upper⟩, word⟩, -⟩ := isCapitalized_typeName name
  obtain ⟨cs, text⟩ := List.head?_eq_some_iff.mp head
  have letters : ∀ c ∈ "Result".toList, isWordChar c = true := List.all_eq_true.mp (by decide)
  refine IsCapitalized.escaped ⟨⟨c, by simp [text], upper⟩, ?_⟩ ?_
  · rw [String.toList_append]
    exact List.forall_mem_append.mpr ⟨word, letters⟩
  · intro same
    -- The name is longer than the keyword.
    have lengths := congrArg (List.length ∘ String.toList) same
    simp [text] at lengths

end ContractAbi.Naming
