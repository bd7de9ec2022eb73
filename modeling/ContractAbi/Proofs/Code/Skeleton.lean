import ContractAbi.Proofs.Text.Ascii
import ContractAbi.Text.Quoted

/-!
# What stands outside comments and string literals

The skeleton of a piece of code is what is left of it without what is inside its comments and its
string literals: the characters that are code, the marks with which comments and literals begin,
and all line ends. It is found by one scan from front to back. The scan knows comments up to the end
of a line, block comments inside each other, and string literals with escapes. Literals of
characters and raw string literals are not in use in generated code.
-/

namespace ContractAbi.Code

/-- Where a character stands. -/
inductive Place where
  | code
  /-- In code, behind a slash that may begin a comment. -/
  | slash
  /-- In a comment up to the end of the line. -/
  | comment
  /-- In a block comment that is inside so many others. -/
  | block (depth : Nat)
  /-- The same, behind a star that may end the comment. -/
  | blockStar (depth : Nat)
  /-- The same, behind a slash that may begin another one. -/
  | blockSlash (depth : Nat)
  | literal
  /-- In a string literal, behind a backslash. -/
  | escape
  deriving DecidableEq

namespace Place

/-- Where the next character stands. -/
def next : Place → Char → Place
  | code, '"' | slash, '"' => literal
  | code, '/' => slash
  | code, _ => code
  | slash, '/' => comment
  | slash, '*' => block 0
  | slash, _ => code
  | comment, '\n' => code
  | comment, _ => comment
  | block depth, '*' | blockStar depth, '*' => blockStar depth
  | block depth, '/' | blockSlash depth, '/' => blockSlash depth
  | blockStar 0, '/' => code
  | blockStar (depth + 1), '/' => block depth
  | blockSlash depth, '*' => block (depth + 1)
  | block depth, _ | blockStar depth, _ | blockSlash depth, _ => block depth
  | literal, '"' => code
  | literal, '\\' => escape
  | literal, _ | escape, _ => literal

/-- Whether a character there belongs to the skeleton. -/
def keeps (p : Place) (c : Char) : Bool := p == code || p == slash || c == '\n'

/-- Where the character behind a text stands. -/
def after (p : Place) (cs : List Char) : Place := cs.foldl next p

end Place

/-- What a text that begins at a place adds to the skeleton. -/
def skeleton (p : Place) : List Char → List Char
  | [] => []
  | c :: cs => if p.keeps c then c :: skeleton (p.next c) cs else skeleton (p.next c) cs

variable {p : Place} {c : Char} {a b cs : List Char}

@[simp] theorem after_append : p.after (a ++ b) = (p.after a).after b := List.foldl_append

/-- The scan goes on behind a text from where it leaves it. -/
theorem skeleton_append : skeleton p (a ++ b) = skeleton p a ++ skeleton (p.after a) b := by
  induction a generalizing p with
  | nil => rfl
  | cons c cs ih =>
    have rest : skeleton (p.next c) (cs ++ b) =
        skeleton (p.next c) cs ++ skeleton (p.after (c :: cs)) b := ih
    rw [List.cons_append, skeleton, skeleton, rest]
    split <;> rfl

/-- The skeleton has all line ends of the text. -/
theorem count_skeleton (p : Place) (cs : List Char) :
    (skeleton p cs).count '\n' = cs.count '\n' := by
  induction cs generalizing p with
  | nil => rfl
  | cons c cs ih =>
    rw [skeleton]
    by_cases kept : p.keeps c = true
    · rw [if_pos kept, List.count_cons, List.count_cons, ih]
    · have other : c ≠ '\n' := by
        rintro rfl
        exact kept (by simp [Place.keeps])
      rw [if_neg kept, List.count_cons_of_ne other, ih]

/-- A text whose characters all keep the scan in its place leaves it there. -/
theorem after_of_stays (stays : ∀ c ∈ cs, p.next c = p) : p.after cs = p := by
  induction cs with
  | nil => rfl
  | cons c cs ih =>
    obtain ⟨first, others⟩ := List.forall_mem_cons.mp stays
    show (p.next c).after cs = p
    rw [first, ih others]

/-- Such a text adds nothing to the skeleton where it is not code. -/
theorem skeleton_of_stays (stays : ∀ c ∈ cs, p.next c = p) (dropped : ∀ c ∈ cs, ¬ p.keeps c) :
    skeleton p cs = [] := by
  induction cs with
  | nil => rfl
  | cons c cs ih =>
    obtain ⟨first, others⟩ := List.forall_mem_cons.mp stays
    obtain ⟨drop, drops⟩ := List.forall_mem_cons.mp dropped
    rw [skeleton, if_neg drop, first, ih others drops]

/-! ### Code without comments and literals -/

/-- No line ends in the text. -/
def OneLine (text : String) : Prop := ∀ c ∈ text.toList, c ≠ '\n'

/-- Nothing in the text begins a comment or a literal, and no line ends in it. -/
def IsPlain (text : String) : Prop := ∀ c ∈ text.toList, c ≠ '/' ∧ c ≠ '"' ∧ c ≠ '\n'

theorem OneLine.ofList (others : cs.all (· != '\n') = true) : OneLine (String.ofList cs) := by
  simpa [OneLine] using others

theorem IsPlain.ofList (others : cs.all (fun c => c != '/' && c != '"' && c != '\n') = true) :
    IsPlain (String.ofList cs) := by
  simpa [IsPlain, and_assoc] using others

theorem oneLine_append {s t : String} : OneLine (s ++ t) ↔ OneLine s ∧ OneLine t := by
  simp only [OneLine, String.toList_append, List.forall_mem_append]

theorem isPlain_append {s t : String} : IsPlain (s ++ t) ↔ IsPlain s ∧ IsPlain t := by
  simp only [IsPlain, String.toList_append, List.forall_mem_append]

namespace IsPlain

variable {s t : String}

theorem oneLine (plain : IsPlain s) : OneLine s := fun c among => (plain c among).2.2

theorem append (first : IsPlain s) (second : IsPlain t) : IsPlain (s ++ t) :=
  isPlain_append.mpr ⟨first, second⟩

theorem next_code (slash : c ≠ '/') (quote : c ≠ '"') : Place.code.next c = .code := by
  unfold Place.next
  split <;> simp_all

/-- Behind plain code stands code. -/
theorem after (plain : IsPlain s) : Place.code.after s.toList = .code :=
  after_of_stays fun c among => next_code (plain c among).1 (plain c among).2.1

end IsPlain

/-! ### Literals -/

theorem next_literal (quote : c ≠ '"') (backslash : c ≠ '\\') :
    Place.literal.next c = .literal := by
  unfold Place.next
  split <;> simp_all

/-- Of what ends neither the literal nor the line, nothing is kept. -/
theorem literal_of_forall (inside : ∀ c ∈ cs, c ≠ '"' ∧ c ≠ '\\' ∧ c ≠ '\n') :
    Place.literal.after cs = .literal ∧ skeleton .literal cs = [] := by
  have stays : ∀ c ∈ cs, Place.literal.next c = .literal := by
    intro c among
    exact next_literal (inside c among).1 (inside c among).2.1
  refine ⟨after_of_stays stays, skeleton_of_stays stays ?_⟩
  intro c among
  simpa [Place.keeps] using (inside c among).2.2

theorem isHexDigit_of_mem_hexDigits {n : Nat} (among : c ∈ Text.hexDigits n) :
    Text.isHexDigit c = true := by
  have digit : ∀ m < 16, Text.isHexDigit (Nat.digitChar m) = true := by decide
  unfold Text.hexDigits at among
  induction n using Nat.strongRecOn with
  | ind n ih =>
    by_cases small : n < 16
    · rw [Nat.toDigits_of_lt_base small, List.mem_singleton] at among
      rw [among]
      exact digit n small
    · rw [Nat.toDigits_of_base_le (by decide) (by omega), List.mem_append, List.mem_singleton]
        at among
      rcases among with higher | rfl
      · exact ih (n / 16) (by omega) higher
      · exact digit _ (by omega)

theorem ne_of_isHexDigit (hex : Text.isHexDigit c = true) : c ≠ '"' ∧ c ≠ '\\' ∧ c ≠ '\n' := by
  refine ⟨?_, ?_, ?_⟩ <;> rintro rfl <;> revert hex <;> decide

/-- A character that is written in a literal stays in it, also as an escape. -/
theorem literal_encodeChar (c : Char) :
    Place.literal.after (Text.Quoted.encodeChar c) = .literal ∧
      skeleton .literal (Text.Quoted.encodeChar c) = [] := by
  unfold Text.Quoted.encodeChar
  split_ifs with quote backslash tab carriage lineEnd nul unseen
  iterate 6 · exact ⟨rfl, rfl⟩
  · -- The number of the character stands between its marks.
    have digits := @literal_of_forall (Text.hexDigits c.toNat)
      fun _ among => ne_of_isHexDigit (isHexDigit_of_mem_hexDigits among)
    have mark : Place.literal.after ['\\', 'u', '\x7b'] = .literal := rfl
    rw [after_append, after_append, skeleton_append, skeleton_append, after_append, mark,
      digits.1, digits.2]
    exact ⟨rfl, rfl⟩
  · exact literal_of_forall (by simp [quote, backslash, lineEnd])

theorem literal_encode (cs : List Char) :
    Place.literal.after (Text.Quoted.encode cs) = .literal ∧
      skeleton .literal (Text.Quoted.encode cs) = [] := by
  induction cs with
  | nil => exact ⟨rfl, rfl⟩
  | cons c cs ih =>
    have first := literal_encodeChar c
    have whole : Text.Quoted.encode (c :: cs) =
        Text.Quoted.encodeChar c ++ Text.Quoted.encode cs := List.flatMap_cons
    rw [whole, after_append, skeleton_append, first.1, first.2, ih.1, ih.2]
    exact ⟨rfl, rfl⟩

/-- Whatever text is quoted, the code behind it is code again. -/
theorem after_quote (text : String) :
    Place.code.after (Text.Quoted.quote text).toList = .code := by
  rw [Text.Quoted.quote, String.toList_ofList, after_append]
  change (Place.literal.after (Text.Quoted.encode text.toList)).after ['"'] = .code
  rw [(literal_encode text.toList).1]
  rfl

/-- Only the mark with which the literal begins is left of a quoted text. -/
theorem skeleton_quote (text : String) :
    skeleton .code (Text.Quoted.quote text).toList = ['"'] := by
  have inside := literal_encode text.toList
  rw [Text.Quoted.quote, String.toList_ofList, skeleton_append]
  change '"' :: skeleton .literal (Text.Quoted.encode text.toList) ++
    skeleton (Place.literal.after (Text.Quoted.encode text.toList)) ['"'] = ['"']
  rw [inside.1, inside.2]
  rfl

/-- No line ends in a quoted text. -/
theorem oneLine_quote (text : String) : OneLine (Text.Quoted.quote text) := by
  have none : (Text.Quoted.quote text).toList.count '\n' = 0 := by
    rw [← count_skeleton .code, skeleton_quote]
    rfl
  rintro c among rfl
  exact List.count_eq_zero.mp none among

/-! ### Comments -/

/-- The text begins a comment, and no line ends in it. -/
structure IsComment (text : String) : Prop where
  mark : ['/', '/'] <+: text.toList
  oneLine : OneLine text

namespace IsComment

theorem ofList (mark : ['/', '/'] <+: cs) (others : cs.all (· != '\n') = true) :
    IsComment (String.ofList cs) :=
  ⟨by rwa [String.toList_ofList], .ofList others⟩

theorem append {s t : String} (comment : IsComment s) (oneLine : OneLine t) :
    IsComment (s ++ t) where
  mark := by
    rw [String.toList_append]
    exact comment.mark.trans (List.prefix_append ..)
  oneLine := oneLine_append.mpr ⟨comment.oneLine, oneLine⟩

theorem ne_empty {s : String} (comment : IsComment s) : s ≠ "" := by
  rintro rfl
  cases List.prefix_nil.mp comment.mark

theorem next_comment (lineEnd : c ≠ '\n') : Place.comment.next c = .comment := by
  unfold Place.next
  split <;> simp_all

/-- Of a comment only its mark is left, and it lasts to the end of the line. -/
theorem scan {text : String} (comment : IsComment text) :
    Place.code.after text.toList = .comment ∧ skeleton .code text.toList = ['/', '/'] := by
  obtain ⟨⟨rest, whole⟩, oneLine⟩ := comment
  rw [OneLine, ← whole] at oneLine
  rw [← whole]
  have other : ∀ c ∈ rest, c ≠ '\n' := (List.forall_mem_append.mp oneLine).2
  have stays : ∀ c ∈ rest, Place.comment.next c = .comment := by
    intro c among
    exact next_comment (other c among)
  have nothing : skeleton .comment rest = [] := by
    refine skeleton_of_stays stays ?_
    intro c among
    simpa [Place.keeps] using other c among
  rw [after_append, skeleton_append]
  change Place.comment.after rest = .comment ∧ ['/', '/'] ++ skeleton .comment rest = ['/', '/']
  rw [after_of_stays stays, nothing]
  exact ⟨rfl, rfl⟩

end IsComment

end ContractAbi.Code
