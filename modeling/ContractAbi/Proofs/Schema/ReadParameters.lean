import ContractAbi.Proofs.Schema.ParameterText
import ContractAbi.Proofs.Text.Loosened

/-!
# Writing out parameters that were read

Parameters are read leniently: their names may be empty or of several words, and so may their types,
whose parentheses need not match. Written out again they still are the text that they were read
from, up to spaces next to its colons, and they are read from it as they were before
(`writtenBack_paramsOf`). What decides where a type ends is the same in both texts: the parentheses
in it, and whether a colon follows (`splitType_cases`).
-/

namespace ContractAbi.Definition

open Text

/-- Parameters written with single spaces between them. -/
def writeParams (params : List Parameter) : List Char := layout (params.map renderParam)

/-- A type takes the whole text, or it ends at a space with a colon behind it, and then it would end
there whatever follows, as long as that has a colon. -/
theorem splitType_cases (depth : Int) (cs : List Char) :
    splitType depth cs = (cs, []) ∨ ∃ t rest, splitType depth cs = (t, rest) ∧
      cs = t ++ ' ' :: rest ∧ ':' ∈ rest ∧
      ∀ other, ':' ∈ other → splitType depth (t ++ ' ' :: other) = (t, other) := by
  fun_induction splitType depth cs with
  | case1 => exact .inl rfl
  | case2 depth c cs ends =>
    obtain ⟨rfl, rfl, colon⟩ := ends
    refine .inr ⟨[], cs, rfl, rfl, colon, ?_⟩
    intro other colon
    rw [List.nil_append, splitType, if_pos ⟨rfl, rfl, colon⟩]
  | case3 depth c cs stays next t rest split ih =>
    rcases ih with whole | ⟨t', rest', same, text, colon, others⟩
    · rw [whole] at split
      cases split
      exact .inl rfl
    · rw [same] at split
      cases split
      refine .inr ⟨c :: t, rest, rfl, congrArg (c :: ·) text, colon, ?_⟩
      intro other colonOther
      have staysThere : ¬ (c = ' ' ∧ depth = 0 ∧ ':' ∈ t ++ ' ' :: other) := by
        rintro ⟨space, outside, -⟩
        exact stays ⟨space, outside, by rw [text]; simp [colon]⟩
      have behind := others other colonOther
      simp only [next] at behind
      rw [List.cons_append, splitType, if_neg staysThere]
      simp only [behind]

/-- Without a colon behind it, a type is the whole rest. -/
theorem splitType_of_noColon {cs : List Char} (noColon : ':' ∉ cs) (depth : Int) :
    splitType depth cs = (cs, []) := by
  rcases splitType_cases depth cs with whole | ⟨t, rest, -, rfl, colon, -⟩
  · exact whole
  · exact absurd (by simp [colon]) noColon

/-- What holds of parameters that were read from a text with a colon. -/
structure WrittenBack (cs : List Char) (params : List Parameter) : Prop where
  loosened : Loosened (writeParams params) cs
  reread : paramsOf (writeParams params) = params
  uniform : IsUniform (writeParams params)
  colon : ':' ∈ writeParams params

theorem renderParam_param (name rawType : List Char) :
    renderParam (param name rawType) = name ++ ':' :: rawType := by
  simp [renderParam, param]

theorem writeParams_singleton (p : Parameter) : writeParams [p] = renderParam p :=
  layout_singleton _

theorem writeParams_cons {params : List Parameter} (p : Parameter) (nonempty : params ≠ []) :
    writeParams (p :: params) = renderParam p ++ ' ' :: writeParams params :=
  layout_cons _ (by simpa using nonempty)

/-- A type starts with a space only if no colon follows, for otherwise it would end there. -/
theorem noColon_of_space {cs t rest : List Char}
    (split : splitType 0 (' ' :: cs) = (' ' :: t, rest)) : ':' ∉ cs := by
  intro colon
  rw [splitType, if_pos ⟨rfl, rfl, colon⟩] at split
  cases split

section Step

variable {name gap type gap' rest : List Char} {params : List Parameter}

/-- The last parameter takes all that is left. -/
theorem writtenBack_last (noColon : ':' ∉ name) (neatName : IsNeat name) (isGap : IsGap gap)
    (neatType : IsNeat type) (isGap' : IsGap gap')
    (whole : splitType 0 (gap' ++ type) = (gap' ++ type, [])) :
    WrittenBack (name ++ (gap ++ ':' :: (gap' ++ type))) [param name type] := by
  have ends : splitType 0 type = (type, []) := by
    rcases isGap' with rfl | rfl
    · exact whole
    · exact splitType_of_noColon (noColon_of_space whole) 0
  constructor
  · rw [writeParams_singleton, renderParam_param]
    exact (Loosened.refl name).append (.colon isGap isGap' (.refl type))
  · rw [writeParams_singleton, renderParam_param, paramsOf_colon noColon, ends, neatName.trim_eq,
      neatType.trim_eq]
    exact congrArg _ paramsOf_nil
  · rw [writeParams_singleton, renderParam_param]
    exact neatName.isUniform_colon neatType
  · rw [writeParams_singleton]
    exact colon_mem_renderParam _

/-- A parameter that ends at a space is read again if what stands behind it is. -/
theorem WrittenBack.cons (noColon : ':' ∉ name) (neatName : IsNeat name) (isGap : IsGap gap)
    (neatType : IsNeat type)
    (ends : ∀ other, ':' ∈ other → splitType 0 (type ++ ' ' :: other) = (type, other))
    (behind : WrittenBack rest params) :
    WrittenBack (name ++ (gap ++ ':' :: (type ++ ' ' :: rest))) (param name type :: params) := by
  have nonempty : params ≠ [] := by
    rintro rfl
    cases behind.colon
  have text : writeParams (param name type :: params) =
      name ++ ':' :: (type ++ ' ' :: writeParams params) := by
    rw [writeParams_cons _ nonempty, renderParam_param, List.append_assoc, List.cons_append]
  constructor
  · have fromColon : Loosened (':' :: (type ++ ' ' :: writeParams params))
        (gap ++ ':' :: ([] ++ (type ++ ' ' :: rest))) :=
      .colon isGap (.inl rfl) ((Loosened.refl type).append (.char ' ' behind.loosened))
    rw [text]
    exact (Loosened.refl name).append fromColon
  · rw [text, paramsOf_colon noColon, ends _ behind.colon, neatName.trim_eq, neatType.trim_eq,
      behind.uniform.trim_eq, behind.reread]
  · rw [writeParams_cons _ nonempty, renderParam_param]
    exact (neatName.isUniform_colon neatType).append behind.uniform
  · rw [text]
    simp

end Step

/-- Parameters that were read from a uniform text are that text when they are written out, up to
spaces next to its colons, and they are read again from there. -/
theorem writtenBack_paramsOf {cs : List Char} (uniform : IsUniform cs) (colon : ':' ∈ cs) :
    WrittenBack cs (paramsOf cs) := by
  obtain ⟨front, behind, rfl, noColon⟩ := List.eq_append_cons_of_mem colon
  have neat : ∀ {ds}, ds <:+: front ++ ':' :: behind → IsNeat (trim ds) :=
    fun part => (uniform.singleSpaced.part part).isNeat_trim
  have neatName : IsNeat (trim front) := neat (List.prefix_append front _).isInfix
  obtain ⟨gap, isGap, name⟩ := uniform.exists_gap_front
  have noColonName : ':' ∉ trim front := by
    intro member
    rw [name] at noColon
    exact noColon (List.mem_append_left _ member)
  have text : front ++ ':' :: behind = trim front ++ (gap ++ ':' :: behind) := by
    rw [← List.append_assoc, ← name]
  rw [paramsOf_colon noColon, text]
  -- Either the type reaches to the end, and this is the last parameter, or others follow behind a
  -- space.
  rcases splitType_cases 0 behind with whole | ⟨t, rest, split, rfl, colonRest, ends⟩
  · have cut : IsUniform ((front ++ [':']) ++ behind) := by simpa using uniform
    obtain ⟨gap', isGap', type⟩ := cut.exists_gap_back
    have neatType : IsNeat (trim behind) :=
      neat ((List.suffix_cons ':' behind).trans (List.suffix_append front _)).isInfix
    have last := writtenBack_last noColonName neatName isGap neatType isGap' (by rwa [← type])
    rw [← type] at last
    rw [whole]
    simpa [trim, trimStart, trimEnd, paramsOf_nil] using last
  · have cut : IsUniform ((front ++ ':' :: t) ++ ' ' :: rest) := by simpa using uniform
    have before : IsUniform ((front ++ [':']) ++ t) := by simpa using cut.before_space
    have shorter : rest.length < (front ++ ':' :: (t ++ ' ' :: rest)).length := by
      simp only [List.length_append, List.length_cons]
      omega
    obtain ⟨gap', isGap', type⟩ := before.exists_gap_back
    have neatType : IsNeat (trim t) := neat ⟨front ++ [':'], ' ' :: rest, by simp⟩
    have trimmed : trim t = t := by
      rcases isGap' with rfl | rfl
      · exact type.symm
      · rw [type, List.append_assoc, List.singleton_append, List.singleton_append] at split
        exact absurd (by simp [colonRest]) (noColon_of_space split)
    have uniformRest := cut.behind_space
    rw [split, uniformRest.trim_eq]
    rw [trimmed] at neatType ⊢
    exact .cons noColonName neatName isGap neatType ends
      (writtenBack_paramsOf uniformRest colonRest)
termination_by cs.length

end ContractAbi.Definition
