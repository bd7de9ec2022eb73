import ContractAbi.Proofs.Schema.ParameterText
import ContractAbi.Proofs.Text.Ascii

/-!
# Reading definitions back

A regular definition is one that the grammar can write: its names are words, and its parameters are
regular. Whatever white space the written text is laid out with, reading it gives the definition
back (`parse_respaced`). The equals sign of the tail is the only one in the text, so that
`splitTail` finds it, and the opcode ends at the first space.
-/

namespace ContractAbi

open Text

/-- One or more letters, digits and underscores. -/
def IsWord (w : List Char) : Prop := w ≠ [] ∧ ∀ c ∈ w, isWordChar c = true

/-- Definitions as the grammar writes them. -/
structure Definition.IsRegular (d : Definition) : Prop where
  name : IsWord d.name.toList
  params : ∀ p ∈ d.params, p.IsRegular
  returnType : IsWord d.returnType.toList

namespace Definition

/-- What stands behind the opcode and the space that ends it. -/
def renderTail (d : Definition) : List Char :=
  (d.params.flatMap fun p => renderParam p ++ [' ']) ++ '=' :: ' ' :: d.returnType.toList ++ [';']

theorem toList_render (d : Definition) :
    d.render.toList = d.name.toList ++ '#' :: (d.opcode.digits.toList ++ ' ' :: d.renderTail) := by
  simp [render, renderTail]

/-- Written parameters are their layout with a space behind it. -/
theorem flatMap_renderParam {params : List Parameter} (nonempty : params ≠ []) :
    (params.flatMap fun p => renderParam p ++ [' ']) =
      layout (params.map renderParam) ++ [' '] := by
  induction params with
  | nil => exact absurd rfl nonempty
  | cons p params ih =>
    cases params with
    | nil => simp [layout_singleton]
    | cons q params =>
      rw [List.flatMap_cons, ih (List.cons_ne_nil _ _), List.map_cons (l := q :: params),
        layout_cons _ (by simp)]
      simp

/-- A written definition is laid out in words. -/
theorem toList_render_eq_layout (d : Definition) :
    d.render.toList = layout ((d.name.toList ++ '#' :: d.opcode.digits.toList) ::
      (d.params.map renderParam ++ [['='], d.returnType.toList ++ [';']])) := by
  have tail : layout [['='], d.returnType.toList ++ [';']] =
      '=' :: ' ' :: (d.returnType.toList ++ [';']) := by
    rw [layout_cons_cons, layout_singleton, List.singleton_append]
  have params : layout (d.params.map renderParam ++ [['='], d.returnType.toList ++ [';']]) =
      (d.params.flatMap fun p => renderParam p ++ [' ']) ++
        '=' :: ' ' :: (d.returnType.toList ++ [';']) := by
    induction d.params with
    | nil => exact tail
    | cons p params ih =>
      rw [List.map_cons, List.cons_append, layout_cons _ (by simp), ih, List.flatMap_cons]
      simp
  rw [toList_render, layout_cons _ (by simp), params]
  simp [renderTail]

theorem splitTail_skip {front : List Char} (noEquals : '=' ∉ front) (passed rest : List Char) :
    splitTail passed (front ++ rest) = splitTail (front.reverse ++ passed) rest := by
  induction front generalizing passed with
  | nil => rfl
  | cons c front ih =>
    have other : c ≠ '=' := fun same => noEquals (same ▸ List.mem_cons_self)
    have later : '=' ∉ front := fun member => noEquals (List.mem_cons_of_mem _ member)
    rw [List.cons_append, splitTail, ih later, List.reverse_cons, List.append_assoc,
      List.singleton_append]
    exact fun _ same => absurd same other

theorem takeWhile_word {w : List Char} (word : IsWord w) (rest : List Char) :
    (w ++ ';' :: rest).takeWhile isWordChar = w :=
  takeWhile_run word.2 rest (by decide)

theorem dropWhile_word {w : List Char} (word : IsWord w) (rest : List Char) :
    (w ++ ';' :: rest).dropWhile isWordChar = ';' :: rest :=
  dropWhile_run word.2 rest (by decide)

/-- The tail is found where nothing but a space stands before its equals sign. -/
theorem splitTail_start {w : List Char} (word : IsWord w) :
    splitTail [] ('=' :: ' ' :: (w ++ [';'])) = some ([], w) := by
  rw [splitTail]
  simp [takeWhile_word word, dropWhile_word word, word.1]

/-- The tail is found behind the parameters. -/
theorem splitTail_space {w : List Char} (word : IsWord w) (before : List Char) :
    splitTail (' ' :: before) ('=' :: ' ' :: (w ++ [';'])) = some (trim before.reverse, w) := by
  rw [splitTail]
  simp [takeWhile_word word, dropWhile_word word, word.1]

end Definition

namespace Parameter.IsRegular

variable {p : Parameter}

theorem noEquals (h : p.IsRegular) : '=' ∉ Definition.renderParam p := by
  intro member
  rcases List.mem_append.mp member with inName | behind
  · exact (h.name_chars _ inName).2 (by decide)
  · rcases List.mem_cons.mp behind with same | inType
    · exact absurd same (by decide)
    · exact h.type.noEquals inType

end Parameter.IsRegular

namespace Definition.IsRegular

variable {d : Definition}

theorem noEquals (h : d.IsRegular) :
    '=' ∉ d.params.flatMap fun p => renderParam p ++ [' '] := by
  intro member
  obtain ⟨p, listed, inParam⟩ := List.mem_flatMap.mp member
  rcases List.mem_append.mp inParam with inText | space
  · exact (h.params p listed).noEquals inText
  · exact absurd (List.mem_singleton.mp space) (by decide)

/-- Behind the opcode the parameters and the return type are found. -/
theorem splitTail_renderTail (h : d.IsRegular) :
    splitTail [] d.renderTail =
      some (layout (d.params.map renderParam), d.returnType.toList) := by
  rw [renderTail, List.append_assoc, List.cons_append, List.cons_append,
    splitTail_skip h.noEquals, List.append_nil]
  by_cases none : d.params = []
  · rw [none]
    exact splitTail_start h.returnType
  · rw [flatMap_renderParam none, List.reverse_append, List.reverse_singleton,
      List.singleton_append, splitTail_space h.returnType, List.reverse_reverse,
      (isUniform_params none h.params).trim_eq]

/-- The parameters are read as they are written. -/
theorem splitParams_layout (h : d.IsRegular) :
    splitParams (layout (d.params.map renderParam)) = d.params := by
  rw [splitParams]
  by_cases none : d.params = []
  · rw [none]
    exact paramsOf_nil
  · rw [(isUniform_params none h.params).trim_eq, paramsOf_layout h.params]

theorem isHex_digits (d : Definition) : ∀ c ∈ d.opcode.digits.toList, isHexDigit c = true :=
  List.all_eq_true.mp d.opcode.isHex

/-- A written definition has single spaces only. -/
theorem isUniform_render (h : d.IsRegular) : IsUniform d.render.toList := by
  have letters : ∀ w : List Char, (∀ c ∈ w, isWordChar c = true) → ∀ c ∈ w, isBlank c = false :=
    fun w word c member => isBlank_of_isWordChar (word c member)
  rw [toList_render_eq_layout]
  refine IsUniform.layout (List.cons_ne_nil _ _) ?_
  intro piece member
  simp only [List.mem_cons, List.mem_append, List.not_mem_nil, or_false] at member
  rcases member with rfl | param | rfl | rfl
  · refine .word (by simp) (List.forall_mem_append.mpr ⟨letters _ h.name.2, ?_⟩)
    refine List.forall_mem_cons.mpr ⟨by decide, ?_⟩
    intro c digit
    exact isBlank_of_isWordChar (isWordChar_of_isHexDigit (isHex_digits d c digit))
  · obtain ⟨p, listed, rfl⟩ := List.mem_map.mp param
    exact (h.params p listed).isUniform_renderParam
  · exact .word (List.cons_ne_nil _ _) (List.forall_mem_singleton.mpr (by decide))
  · refine .word (by simp) (List.forall_mem_append.mpr ⟨letters _ h.returnType.2, ?_⟩)
    exact List.forall_mem_singleton.mpr (by decide)

theorem lastWord_name (h : d.IsRegular) : lastWord d.name.toList = d.name.toList := by
  have backwards : ∀ c ∈ d.name.toList.reverse, isWordChar c = true :=
    fun c member => h.name.2 c (List.mem_reverse.mp member)
  rw [lastWord, List.takeWhile_eq_self_iff.mpr backwards, List.reverse_reverse]

/-- A definition is read from the text that it is written as. -/
theorem ofUniform_render (h : d.IsRegular) : ofUniform d.render.toList = .ok d := by
  have name : ∀ c ∈ d.name.toList, (c != '#') = true := by
    intro c member
    have different : c ≠ '#' := by
      rintro rfl
      exact absurd (h.name.2 _ member) (by decide)
    simpa using different
  rw [toList_render, ofUniform, dropWhile_run name _ (by decide), takeWhile_run name _ (by decide)]
  simp only [takeWhile_run (isHex_digits d) _ (show isHexDigit ' ' = false by decide),
    dropWhile_run (isHex_digits d) _ (show isHexDigit ' ' = false by decide), h.lastWord_name,
    if_neg h.name.1, if_neg d.opcode.nonempty, Opcode.ofDigits_digits, h.splitTail_renderTail,
    h.splitParams_layout, String.ofList_toList]

end Definition.IsRegular

namespace Definition

/-- A regular definition is read back from its text, whatever white space stands for the single
spaces of the text and around it. -/
theorem parse_respaced {d : Definition} (regular : d.IsRegular) {text : String}
    (respaced : Respaced d.render.toList text.toList) : parse text = .ok d := by
  rw [parse, squeeze, words_eq_of_respaced respaced]
  change ofUniform (squeeze d.render.toList) = .ok d
  rw [squeeze_uniform regular.isUniform_render, regular.ofUniform_render]

/-- A definition with a space inside of a type and an opcode in mixed case. -/
def question : Definition :=
  ⟨"ask", ⟨"1Fa", by decide, by decide, by decide⟩,
    [⟨none, "to", "(Maybe ^Cell)"⟩, ⟨none, "n", "uint8"⟩], "Body"⟩

theorem isRegular_question : question.IsRegular where
  name := ⟨by decide, List.all_eq_true.mp rfl⟩
  params := by
    intro p member
    rcases List.mem_cons.mp member with rfl | member
    · exact ⟨rfl, by decide, by simp [isBlank], by decide, by decide, by decide, by decide, by decide,
        by decide⟩
    · rcases List.mem_cons.mp member with rfl | member
      · exact ⟨rfl, by decide, by simp [isBlank], by decide, by decide, by decide, by decide,
          by decide, by decide⟩
      · cases member
  returnType := ⟨by decide, List.all_eq_true.mp rfl⟩

/-- `question` over several lines, with tabs and double spaces. -/
def questionText : String := "\t ask#1Fa\n to:(Maybe  ^Cell) n:uint8\t= Body; "

theorem respaced_questionText : Respaced question.render.toList questionText.toList := by
  have blank : ∀ {blanks : List Char}, blanks.all isBlank = true → ∀ c ∈ blanks, isBlank c = true :=
    List.all_eq_true.mp
  have spread : Spread
      ("ask#1Fa".toList ++ ' ' :: ("to:(Maybe".toList ++ ' ' :: ("^Cell)".toList ++ ' ' ::
        ("n:uint8".toList ++ ' ' :: ("=".toList ++ ' ' :: ("Body;".toList ++ []))))))
      ("ask#1Fa".toList ++ ("\n ".toList ++ ("to:(Maybe".toList ++ ("  ".toList ++
        ("^Cell)".toList ++ (" ".toList ++ ("n:uint8".toList ++ ("\t".toList ++ ("=".toList ++
          (" ".toList ++ ("Body;".toList ++ " ".toList))))))))))) :=
    .letters (by simp) <| .space (by decide) (blank rfl) <|
    .letters (by simp) <| .space (by decide) (blank rfl) <|
    .letters (by simp) <| .space (by decide) (blank rfl) <|
    .letters (by simp) <| .space (by decide) (blank rfl) <|
    .letters (by simp) <| .space (by decide) (blank rfl) <|
    .letters (by simp) <| .done (blank rfl)
  exact ⟨"\t ".toList, _, blank rfl, spread, by decide⟩

/-- The text over several lines is the question. -/
theorem parse_respaced_question :
    question.IsRegular ∧ Respaced question.render.toList questionText.toList ∧
      parse questionText = .ok question :=
  ⟨isRegular_question, respaced_questionText,
    parse_respaced isRegular_question respaced_questionText⟩

end Definition

end ContractAbi
