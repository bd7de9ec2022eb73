import ContractAbi.Proofs.Naming.Gives
import ContractAbi.Proofs.Naming.Identifier

/-!
# Module names name files

The module of an interface, without the mark that it may have as an identifier, is made of
characters that every file system takes and that have one case only; and it is none of the modules
that stand beside those of the interfaces (`IsModuleName`). A number changes nothing of that.
-/

namespace ContractAbi.Naming

open Text

/-- A lower-case letter, a digit or an underscore. -/
def isStemChar (c : Char) : Bool := c.isLower || c.isDigit || c == '_'

/-- What the name of a module has to be. -/
structure IsModuleName (ident : String) : Prop where
  escaped : Escaped ident
  stem : ∀ c ∈ (plain ident).toList, isStemChar c = true
  notFixed : plain ident ∉ fixedModules

theorem isWordChar_iff {c : Char} : isWordChar c = true ↔
    c.isUpper = true ∨ c.isLower = true ∨ c.isDigit = true ∨ c = '_' := by
  change (c.isUpper || c.isLower || c.isDigit || c == '_') = true ↔ _
  simp only [Bool.or_eq_true, beq_iff_eq, or_assoc]

theorem toNat_lt_of_isStemChar (c : Char) (stem : isStemChar c = true) : c.toNat < 128 := by
  simp only [isStemChar, Bool.or_eq_true, beq_iff_eq, or_assoc] at stem
  exact toNat_lt_of_isWordChar c (isWordChar_iff.mpr (.inr stem))

theorem toLower_of_isStemChar {c : Char} (stem : isStemChar c = true) : c.toLower = c := by
  have folded := forall_of_ascii (q := fun c => c.toLower == c) toNat_lt_of_isStemChar
    (by decide) stem
  exact beq_iff_eq.mp folded

theorem isUpper_toLower (c : Char) : c.toLower.isUpper = false := by
  by_cases upper : c.isUpper = true
  · have ascii : ∀ c : Char, c.isUpper = true → c.toNat < 128 := fun c upper =>
      toNat_lt_of_isWordChar c (isWordChar_iff.mpr (.inl upper))
    have folded := forall_of_ascii (q := fun c => !c.toLower.isUpper) ascii (by decide) upper
    exact (Bool.not_eq_true' _).mp folded
  · have same : c.toLower = c := dif_neg fun capital => upper (decide_eq_true capital)
    rw [same]
    simpa using upper

/-- In lower case a word character is one of the stem of a file name. -/
theorem isStemChar_of_mem_sanitize {name : String} {c : Char}
    (among : c ∈ sanitize (lowerCase name)) : isStemChar c = true := by
  rcases mem_sanitize among with rfl | ⟨listed, word⟩
  · decide
  · rw [lowerCase, String.toList_ofList, lower] at listed
    obtain ⟨x, -, rfl⟩ := List.mem_map.mp listed
    have cased := forall_of_ascii (q := fun c => c.isUpper || isStemChar c)
      toNat_lt_of_isWordChar (by decide) word
    simpa [isUpper_toLower x] using cased

/-- An identifier adds no other characters to those of the name than letters of its own. -/
theorem mem_plain_identifier {name : String} {c : Char}
    (among : c ∈ (plain (identifier name)).toList) : c ∈ sanitize name ∨ isStemChar c = true := by
  unfold identifier at among
  simp only at among
  -- The name is empty, a keyword that cannot be raw, another keyword, or none of these.
  split at among
  · right
    have value : ∀ c ∈ (plain "value").toList, isStemChar c = true :=
      List.all_eq_true.mp (by decide)
    exact value c among
  · split at among
    · rename_i reserved
      have marked : ∀ word ∈ bareKeywords, plain (word ++ "_") = word ++ "_" := by decide +kernel
      rw [marked _ reserved, String.toList_append] at among
      rcases List.mem_append.mp among with before | behind
      · left
        simpa using before
      · right
        rw [show c = '_' by simpa using behind]
        decide
    · split at among
      · rename_i keyword
        left
        rw [plain_raw keyword] at among
        simpa using among
      · left
        rw [plain, String.toList_ofList, String.toList_ofList,
          dropRaw_of_word fun c => isWordChar_of_mem_sanitize] at among
        exact among

/-- No fixed module has an underscore in its name. -/
theorem notMem_fixedModules {ident : String} (underscore : '_' ∈ ident.toList) :
    ident ∉ fixedModules := by
  have none : ∀ word ∈ fixedModules, '_' ∉ word.toList := by decide
  intro fixed
  exact none ident fixed underscore

/-- A name with an underscore in it is what it has to be if all its characters are. -/
theorem isModuleName_append {front back : String} (name : isName front.toList = true)
    (stem : ∀ c ∈ (front ++ back).toList, isStemChar c = true)
    (underscore : '_' ∈ (front ++ back).toList) : IsModuleName (front ++ back) := by
  have letters : ∀ c ∈ (front ++ back).toList, isWordChar c = true := by
    intro c member
    exact forall_of_ascii toNat_lt_of_isStemChar (by decide) (stem c member)
  have escaped : Escaped (front ++ back) := by
    refine escaped_append name ?_ underscore
    intro c member
    exact letters c (by simp [member])
  have same : plain (front ++ back) = front ++ back := by
    rw [plain, dropRaw_of_word letters, String.ofList_toList]
  refine ⟨escaped, ?_, ?_⟩
  · rw [same]
    exact stem
  · rw [same]
    exact notMem_fixedModules underscore

/-- Every interface has a module name that can be the name of its file. -/
theorem isModuleName_moduleName (interface : String) : IsModuleName (moduleName interface) := by
  have escaped := escaped_identifier (lowerCase interface)
  have stem : ∀ c ∈ (plain (identifier (lowerCase interface))).toList, isStemChar c = true := by
    intro c member
    rcases mem_plain_identifier member with given | own
    · exact isStemChar_of_mem_sanitize given
    · exact own
  unfold moduleName
  simp only
  split
  · apply isModuleName_append escaped.isName_plain
    · have back : ∀ c ∈ "_binding".toList, isStemChar c = true := List.all_eq_true.mp (by decide)
      intro c member
      rw [String.toList_append] at member
      rcases List.mem_append.mp member with before | behind
      · exact stem c before
      · exact back c behind
    · simp
  · exact ⟨escaped, stem, ‹_›⟩

theorem IsModuleName.numbered {ident : String} (module : IsModuleName ident) (n : Nat) :
    IsModuleName (Namer.numbered (plain ident) n) := by
  rw [Namer.numbered, String.append_assoc]
  apply isModuleName_append module.escaped.isName_plain
  · intro c member
    simp only [String.toList_append, List.mem_append] at member
    rcases member with before | mark | digit
    · exact module.stem c before
    · rw [show c = '_' by simpa using mark]
      decide
    · have number : (toString n).toList = Nat.toDigits 10 n := Nat.toList_repr
      simp [isStemChar, Decimal.isDigit_of_mem_toDigits (number ▸ digit)]
  · simp

end ContractAbi.Naming
