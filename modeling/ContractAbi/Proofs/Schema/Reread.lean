import ContractAbi.Proofs.Schema.ReadParameters
import ContractAbi.Proofs.Schema.Tail

/-!
# What is read, and that it is read again

`parse` looks for a definition in a text: for the word before the first `#`, the digits behind it,
and the first tail. What stands before the word and behind the tail does not count, and neither does
a text without a colon where the parameters should stand (`parse_standsAs`). But for that the
definition that is read is the text, up to spaces next to colons, and it is read again from the text
that it is written as (`parse_render_of_parse`).
-/

namespace ContractAbi.Definition

open Text

variable {cs tight loose : List Char} {d : Definition}

/-- Spaces next to colons neither make nor hide a tail. -/
theorem HasTail.of_loosened (h : Loosened tight loose) (tail : HasTail tight) : HasTail loose := by
  obtain ⟨front, back, rfl, gap, w, behind, word, rfl⟩ := tail
  obtain ⟨front', back', rfl, first, second⟩ := h.exists_append
  have noColon : ':' ∉ '=' :: ' ' :: (w ++ [';']) := by
    have notWord : ':' ∉ w := fun member => absurd (word.2 ':' member) (by decide)
    simp [notWord]
  have tailFirst : Loosened ('=' :: ' ' :: (w ++ [';']) ++ behind) back' := by simpa using second
  obtain ⟨behind', rfl, -⟩ := tailFirst.exists_letters noColon
  refine ⟨front', _, rfl, ?_, w, behind', word, by simp⟩
  rcases eq_or_ne front [] with rfl | nonempty
  · rw [first.eq_nil]
    exact gap
  · obtain ⟨before, c, rfl⟩ : ∃ before c, front = before ++ [c] :=
      ⟨_, _, (List.dropLast_concat_getLast nonempty).symm⟩
    obtain rfl : c = ' ' := gap c (by simp)
    obtain ⟨before', space, rfl, -, last⟩ := first.exists_append
    obtain ⟨rest, rfl, none⟩ :=
      (show Loosened ([' '] ++ []) space from last).exists_letters (by decide)
    rw [none.eq_nil]
    simp

/-- The text of the parameters and the space behind it, if there are any. -/
def beforeTail (text : List Char) : List Char := if text = [] then [] else text ++ [' ']

/-- A definition as it is written, with these texts in place of its parameters and behind it. -/
def written (d : Definition) (text behind : List Char) : List Char :=
  d.name.toList ++ '#' :: (d.opcode.digits.toList ++ ' ' ::
    (beforeTail text ++ '=' :: ' ' :: (d.returnType.toList ++ ';' :: behind)))

/-- A definition that stands in a text with uniform white space: what stands before its name, the
text of its parameters, and what stands behind its tail. -/
structure StandsIn (d : Definition) (cs head text behind : List Char) : Prop where
  split : cs = head ++ d.written text behind
  noHash : '#' ∉ head
  stops : ∀ c ∈ head.getLast?, isWordChar c = false
  name : IsWord d.name.toList
  returnType : IsWord d.returnType.toList
  neat : IsNeat text
  noTail : ¬ HasTail text
  params : d.params = paramsOf text

/-- The last word of a text, and what is before it. -/
theorem lastWord_split (cs : List Char) : ∃ head, cs = head ++ lastWord cs ∧
    (∀ c ∈ lastWord cs, isWordChar c = true) ∧ ∀ c ∈ head.getLast?, isWordChar c = false := by
  refine ⟨(cs.reverse.dropWhile isWordChar).reverse, ?_, ?_, ?_⟩
  · have turned := List.takeWhile_append_dropWhile (p := isWordChar) (l := cs.reverse)
    rw [lastWord, ← List.reverse_append, turned, List.reverse_reverse]
  · intro c member
    exact List.mem_takeWhile_imp (List.mem_reverse.mp member)
  · intro c last
    rw [List.getLast?_reverse] at last
    have stops := List.head?_dropWhile_not isWordChar cs.reverse
    rw [last] at stops
    exact stops

theorem lastWord_append {head word : List Char} (letters : ∀ c ∈ word, isWordChar c = true)
    (stops : ∀ c ∈ head.getLast?, isWordChar c = false) : lastWord (head ++ word) = word := by
  have backwards : ∀ c ∈ word.reverse, isWordChar c = true :=
    fun c member => letters c (List.mem_reverse.mp member)
  rw [lastWord, List.reverse_append]
  rcases eq_or_ne head [] with rfl | nonempty
  · rw [List.reverse_nil, List.append_nil, List.takeWhile_eq_self_iff.mpr backwards,
      List.reverse_reverse]
  · obtain ⟨front, c, rfl⟩ : ∃ front c, head = front ++ [c] :=
      ⟨_, _, (List.dropLast_concat_getLast nonempty).symm⟩
    rw [List.reverse_append, List.reverse_singleton, List.singleton_append,
      takeWhile_run backwards _ (stops c (by simp)), List.reverse_reverse]

theorem toList_digits_of_ofDigits {op : Opcode} (read : Opcode.ofDigits cs = .ok op) :
    op.digits.toList = cs := by
  unfold Opcode.ofDigits at read
  split at read
  · cases read
  · split at read
    · split at read
      · cases read
        exact String.toList_ofList
      · cases read
    · cases read

theorem hash_notMem_takeWhile (cs : List Char) : '#' ∉ cs.takeWhile (· != '#') := by
  intro member
  simpa using List.mem_takeWhile_imp member

theorem split_at_hash {c : Char} {behind : List Char}
    (marked : cs.dropWhile (· != '#') = c :: behind) :
    cs.takeWhile (· != '#') ++ '#' :: behind = cs := by
  have stops := List.head?_dropWhile_not (· != '#') cs
  rw [marked] at stops
  obtain rfl : c = '#' := by simpa using stops
  rw [← marked, List.takeWhile_append_dropWhile]

/-- The steps of reading, each with what it found. -/
theorem exists_steps (read : ofUniform cs = .ok d) :
    ∃ front rest text, cs = front ++ '#' :: (d.opcode.digits.toList ++ ' ' :: rest) ∧
      '#' ∉ front ∧ lastWord front = d.name.toList ∧ d.name.toList ≠ [] ∧
      splitTail [] rest = some (text, d.returnType.toList) ∧ d.params = splitParams text := by
  cases marked : cs.dropWhile (· != '#') with
  | nil =>
    simp only [ofUniform, marked] at read
    cases read
  | cons c behind =>
    simp only [ofUniform, marked] at read
    have named : lastWord (cs.takeWhile (· != '#')) ≠ [] := by
      intro empty
      rw [if_pos empty] at read
      cases read
    have some : behind.takeWhile isHexDigit ≠ [] := by
      intro empty
      rw [if_neg named, if_pos empty] at read
      cases read
    rw [if_neg named, if_neg some] at read
    cases opcode : Opcode.ofDigits (behind.takeWhile isHexDigit) with
    | error fault =>
      rw [opcode] at read
      cases read
    | ok op =>
      rw [opcode] at read
      have digits := List.takeWhile_append_dropWhile (p := isHexDigit) (l := behind)
      rw [← toList_digits_of_ofDigits opcode] at digits
      -- What is left of the reading are a space and the tail behind it.
      dsimp only at read
      split at read
      · rename_i rest spaced
        rw [spaced] at digits
        split at read
        · rename_i text returnType tail
          cases read
          refine ⟨_, rest, text, ?_, hash_notMem_takeWhile cs, ?_, ?_, ?_, rfl⟩
          · rw [digits, split_at_hash marked]
          · exact String.toList_ofList.symm
          · simpa using named
          · simpa using tail
        · cases read
      · cases read

/-- What a definition is read from. -/
theorem exists_standsIn (uniform : IsUniform cs) (read : ofUniform cs = .ok d) :
    ∃ head text behind, d.StandsIn cs head text behind := by
  obtain ⟨front, rest, text, rfl, noHash, word, named, tail, params⟩ := exists_steps read
  obtain ⟨head, split, letters, stops⟩ := lastWord_split front
  rw [word] at split letters
  have cut : IsUniform ((front ++ '#' :: d.opcode.digits.toList) ++ ' ' :: rest) := by
    simpa using uniform
  obtain ⟨before, behind, rfl, returnType, gap, textOf, first⟩ := splitTail_eq_some_iff.mp tail
  have noTail := not_hasTail_of_first first
  have noHashHead : '#' ∉ head := by
    intro member
    rw [split] at noHash
    exact noHash (List.mem_append_left _ member)
  -- Without parameters the tail opens at once; else the space before it is not theirs.
  rcases eq_or_ne before [] with rfl | nonempty
  · have empty : text = [] := textOf
    subst empty
    refine ⟨head, [], behind, ?_, noHashHead, stops, ⟨named, letters⟩, returnType, .inl rfl, noTail,
      params⟩
    rw [split]
    simp [written, beforeTail]
  · obtain ⟨inner, c, rfl⟩ : ∃ inner c, before = inner ++ [c] :=
      ⟨_, _, (List.dropLast_concat_getLast nonempty).symm⟩
    obtain rfl : c = ' ' := gap c (by simp)
    have uniformInner : IsUniform inner := by
      have inside := cut.behind_space
      rw [List.append_assoc] at inside
      exact inside.before_space
    obtain rfl : text = inner := by simpa [uniformInner.trim_eq] using textOf
    refine ⟨head, text, behind, ?_, noHashHead, stops, ⟨named, letters⟩, returnType,
      .inr uniformInner, fun among => noTail (among.append [' ']), ?_⟩
    · have some : text ≠ [] := by
        rintro rfl
        obtain ⟨_, _, start, -⟩ := uniformInner.head
        cases start
      rw [split]
      simp [written, beforeTail, some]
    · rw [params, splitParams, uniformInner.trim_eq]

theorem paramsOf_of_noColon {text : List Char} (noColon : ':' ∉ text) : paramsOf text = [] := by
  have none : text.dropWhile (· != ':') = [] := by
    refine List.dropWhile_eq_nil_iff.mpr fun c member => ?_
    have other : c ≠ ':' := fun same => noColon (same ▸ member)
    simpa using other
  rw [paramsOf.eq_def]
  split
  · rfl
  · rename_i some
    rw [none] at some
    cases some

theorem writeParams_ne_nil {params : List Parameter} (nonempty : params ≠ []) :
    writeParams params ≠ [] := by
  intro empty
  have written := flatMap_renderParam nonempty
  obtain ⟨p, params, rfl⟩ := List.exists_cons_of_ne_nil nonempty
  rw [show layout _ = [] from empty] at written
  have colon : ':' ∈ ([] ++ [' '] : List Char) := by
    rw [← written, List.flatMap_cons]
    simp [colon_mem_renderParam p]
  exact absurd colon (by decide)

theorem toList_render_eq_written (d : Definition) :
    d.render.toList = d.written (writeParams d.params) [] := by
  rw [toList_render, renderTail, written, beforeTail]
  rcases eq_or_ne d.params [] with none | some
  · rw [none]
    rfl
  · rw [flatMap_renderParam some, if_neg (writeParams_ne_nil some)]
    simp [writeParams]

namespace StandsIn

variable {head text behind : List Char}

/-- Either the parameters are written back, or the text has no colon and there are none. -/
theorem writtenBack (h : d.StandsIn cs head text behind) :
    WrittenBack text d.params ∨ ':' ∉ text ∧ d.params = [] := by
  by_cases colon : ':' ∈ text
  · rcases h.neat with rfl | uniform
    · cases colon
    · rw [h.params]
      exact .inl (writtenBack_paramsOf uniform colon)
  · exact .inr ⟨colon, h.params.trans (paramsOf_of_noColon colon)⟩

/-- A definition that was read also stands in the text that it is written as, alone. -/
theorem render (h : d.StandsIn cs head text behind) :
    d.StandsIn d.render.toList [] (writeParams d.params) [] where
  split := toList_render_eq_written d
  noHash := List.not_mem_nil
  stops := nofun
  name := h.name
  returnType := h.returnType
  neat := by
    rcases h.writtenBack with back | ⟨-, none⟩
    · exact .inr back.uniform
    · rw [none]
      exact .inl rfl
  noTail := by
    rcases h.writtenBack with back | ⟨-, none⟩
    · exact fun tail => h.noTail (tail.of_loosened back.loosened)
    · rw [none]
      exact not_hasTail_nil
  params := by
    rcases h.writtenBack with back | ⟨-, none⟩
    · exact back.reread.symm
    · rw [none]
      exact paramsOf_nil.symm

theorem isUniform_written (h : d.StandsIn cs head text behind) : IsUniform (d.written text []) := by
  have letters : ∀ {w : List Char}, (∀ c ∈ w, isWordChar c = true) → ∀ c ∈ w, isBlank c = false :=
    fun word c member => isBlank_of_isWordChar (word c member)
  have start : ∀ c ∈ d.name.toList ++ '#' :: d.opcode.digits.toList, isBlank c = false := by
    refine List.forall_mem_append.mpr ⟨letters h.name.2, ?_⟩
    refine List.forall_mem_cons.mpr ⟨by decide, letters fun c digit => ?_⟩
    exact isWordChar_of_isHexDigit (List.all_eq_true.mp d.opcode.isHex c digit)
  have tail : IsUniform ('=' :: ' ' :: (d.returnType.toList ++ [';'])) := by
    refine .next (List.cons_ne_nil '=' []) (List.forall_mem_singleton.mpr rfl) (.word (by simp) ?_)
    exact List.forall_mem_append.mpr
      ⟨letters h.returnType.2, List.forall_mem_singleton.mpr rfl⟩
  have rest : IsUniform (beforeTail text ++ '=' :: ' ' :: (d.returnType.toList ++ [';'])) := by
    unfold beforeTail
    rcases h.neat with rfl | uniform
    · exact tail
    · obtain ⟨c, behind, rfl, -⟩ := uniform.head
      simpa using uniform.append tail
  simpa [written] using IsUniform.next (by simp) start rest

/-- Behind the opcode the text of the parameters and the return type are found. -/
theorem splitTail_eq (h : d.StandsIn cs head text behind) :
    splitTail [] (beforeTail text ++ '=' :: ' ' :: (d.returnType.toList ++ ';' :: behind)) =
      some (text, d.returnType.toList) := by
  rcases eq_or_ne text [] with rfl | nonempty
  · exact splitTail_of_startsTail (by simp) h.returnType behind
  · have found := splitTail_of_not_hasTail h.noTail h.returnType behind
    rw [h.neat.trim_eq] at found
    rw [beforeTail, if_neg nonempty, List.append_assoc, List.singleton_append, found]

/-- The parts are found again, so that the definition is read. -/
theorem ofUniform_eq (h : d.StandsIn cs head text behind) : ofUniform cs = .ok d := by
  have noHash : ∀ c ∈ head ++ d.name.toList, (c != '#') = true := by
    intro c member
    have other : c ≠ '#' := by
      rintro rfl
      rcases List.mem_append.mp member with front | name
      · exact h.noHash front
      · exact absurd (h.name.2 _ name) (by decide)
    simpa using other
  have digits : ∀ c ∈ d.opcode.digits.toList, isHexDigit c = true :=
    List.all_eq_true.mp d.opcode.isHex
  have stop : isHexDigit ' ' = false := by decide
  rw [h.split, written, ← List.append_assoc, ofUniform, dropWhile_run noHash _ (by decide),
    takeWhile_run noHash _ (by decide)]
  simp only [takeWhile_run digits _ stop, dropWhile_run digits _ stop,
    lastWord_append h.name.2 h.stops, if_neg h.name.1, if_neg d.opcode.nonempty,
    Opcode.ofDigits_digits, h.splitTail_eq, splitParams, h.neat.trim_eq, ← h.params,
    String.ofList_toList]

end StandsIn

/-- A text is read as a definition exactly if the definition stands in it. -/
theorem parse_eq_ok_iff {text : String} :
    parse text = .ok d ↔
      ∃ head params behind, d.StandsIn (squeeze text.toList) head params behind := by
  constructor
  · intro read
    have nonempty : squeeze text.toList ≠ [] := by
      intro empty
      rw [parse, empty] at read
      cases read
    exact exists_standsIn (isUniform_squeeze nonempty) read
  · rintro ⟨head, params, behind, stands⟩
    exact stands.ofUniform_eq

/-- What was read is read again from the text that it is written as. -/
theorem parse_render_of_parse {text : String} (accepted : parse text = .ok d) :
    parse d.render = .ok d := by
  obtain ⟨head, params, behind, stands⟩ := parse_eq_ok_iff.mp accepted
  have uniform := stands.render.isUniform_written
  rw [← toList_render_eq_written] at uniform
  rw [parse_eq_ok_iff, squeeze_uniform uniform]
  exact ⟨_, _, _, stands.render⟩

/-- A text with a parameter without a name, one without a type, and one whose type has several
words, equals signs among them, and a parenthesis that is never closed. -/
def oddText : String :=
  "see odd#0F :bits (at): many words:a= =b :((d  e) = =Ret; f = Ret = Body; x"

def oddDefinition : Definition :=
  ⟨"odd", ⟨"0F", by decide, by decide, by decide⟩,
    [⟨none, "", "bits"⟩, ⟨none, "(at)", ""⟩, ⟨none, "many words", "a="⟩,
      ⟨none, "=b", "((d e) = =Ret; f = Ret"⟩], "Body"⟩

/-- What is read from the odd text is read again from its own rendering. -/
theorem parse_render_of_parse_odd :
    parse oddText = .ok oddDefinition ∧ parse oddDefinition.render = .ok oddDefinition := by
  have accepted : parse oddText = .ok oddDefinition := by decide +kernel
  exact ⟨accepted, parse_render_of_parse accepted⟩

end ContractAbi.Definition
