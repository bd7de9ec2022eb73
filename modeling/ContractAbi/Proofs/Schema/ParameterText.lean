import ContractAbi.Proofs.Text.Spacing
import ContractAbi.Schema.Definition

/-!
# Reading parameters back

A parameter is written `name:type`, and parameters with single spaces between them. A type may hold
single spaces inside its parentheses. `splitType` then finds the end of the type
(`splitType_type_space`), for the spaces inside it stand behind an open parenthesis, and `paramsOf`
reads back the parameters that were written (`paramsOf_layout`).
-/

namespace ContractAbi

open Text

/-- Types as the grammar writes them: parentheses are properly nested, and white space is single
spaces inside them. -/
structure IsTypeText (t : List Char) : Prop where
  nonempty : t ≠ []
  noColon : ':' ∉ t
  noEquals : '=' ∉ t
  nested : ∀ k ≤ t.length, (t.take k).count ')' ≤ (t.take k).count '('
  closed : t.count ')' = t.count '('
  spaced : ∀ k, (h : k < t.length) → isBlank t[k] = true →
    t[k] = ' ' ∧ (t.take k).count ')' < (t.take k).count '(' ∧ t[k + 1]? ≠ some ' '

/-- Parameters as the grammar writes them. -/
structure Parameter.IsRegular (p : Parameter) : Prop where
  untagged : p.category = none
  name_nonempty : p.name.toList ≠ []
  name_chars : ∀ c ∈ p.name.toList, isBlank c = false ∧ c ∉ [':', '=', '(', ')']
  type : IsTypeText p.rawType.toList

namespace IsTypeText

variable {t : List Char}

theorem blank (h : IsTypeText t) {front : List Char} {c : Char} {back : List Char}
    (split : t = front ++ c :: back) (isBlankC : isBlank c = true) :
    c = ' ' ∧ front.count ')' < front.count '(' ∧ back.head? ≠ some ' ' := by
  subst split
  have inside : front.length < (front ++ c :: back).length := by simp
  have there : (front ++ c :: back)[front.length] = c := by simp
  have found := h.spaced front.length inside (by rw [there]; exact isBlankC)
  rw [there, List.take_left] at found
  refine ⟨found.1, found.2.1, ?_⟩
  simpa [List.getElem?_append_right, List.head?_eq_getElem?] using found.2.2

theorem isUniform (h : IsTypeText t) : IsUniform t := by
  refine isUniform_of_single_spaces ?_ ?_
  · obtain ⟨c, cs, rfl⟩ := List.exists_cons_of_ne_nil h.nonempty
    refine ⟨c, rfl, ?_⟩
    by_contra blank
    have outside : c :: cs = [] ++ c :: cs := rfl
    exact Nat.not_lt_zero _ (h.blank outside (by simpa using blank)).2.1
  · intro front c back split isBlankC
    obtain ⟨rfl, opened, single⟩ := h.blank split isBlankC
    refine ⟨rfl, ?_⟩
    cases back with
    | nil =>
      -- A parenthesis that is open at the end of the type would stay open.
      have balanced := h.closed
      rw [split, List.count_append, List.count_append] at balanced
      simp only [List.count_cons_of_ne (show (' ' : Char) ≠ ')' by decide),
        List.count_cons_of_ne (show (' ' : Char) ≠ '(' by decide), List.count_nil] at balanced
      omega
    | cons d back =>
      refine ⟨d, rfl, ?_⟩
      by_contra blank
      have again : t = (front ++ [' ']) ++ d :: back := by rw [split, List.append_assoc]; rfl
      have space := (h.blank again (by simpa using blank)).1
      exact single (congrArg some space)

end IsTypeText

namespace Definition

/-- The depth of parentheses at which a character leaves a text. -/
theorem depth_cons (depth : Int) (c : Char) (cs : List Char) :
    (if c = '(' then depth + 1 else if c = ')' then depth - 1 else depth) + cs.count '(' -
        cs.count ')' = depth + (c :: cs).count '(' - (c :: cs).count ')' := by
  by_cases opens : c = '('
  · subst opens
    rw [if_pos rfl, List.count_cons_self, List.count_cons_of_ne (by decide)]
    omega
  · rw [if_neg opens, List.count_cons_of_ne opens]
    by_cases closes : c = ')'
    · subst closes
      rw [if_pos rfl, List.count_cons_self]
      omega
    · rw [if_neg closes, List.count_cons_of_ne closes]

/-- A part of a text whose spaces stand inside parentheses belongs to the type as a whole. -/
theorem splitType_append (depth : Int) (t rest : List Char)
    (inside : ∀ k, (h : k < t.length) → t[k] = ' ' →
      depth + (t.take k).count '(' - (t.take k).count ')' ≠ 0) :
    splitType depth (t ++ rest) =
      (t ++ (splitType (depth + t.count '(' - t.count ')') rest).1,
        (splitType (depth + t.count '(' - t.count ')') rest).2) := by
  induction t generalizing depth with
  | nil => simp
  | cons c t ih =>
    have stays : ¬ (c = ' ' ∧ depth = 0 ∧ ':' ∈ t ++ rest) := by
      rintro ⟨space, outside, -⟩
      exact inside 0 (Nat.zero_lt_succ _) space (by simpa using outside)
    rw [List.cons_append, splitType, if_neg stays]
    have tail := ih (if c = '(' then depth + 1 else if c = ')' then depth - 1 else depth) (by
      intro k below space
      rw [depth_cons]
      exact inside (k + 1) (Nat.succ_lt_succ below) space)
    rw [depth_cons] at tail
    simp only [tail, List.cons_append]

/-- A type is not divided at the spaces inside its parentheses. -/
theorem splitType_type {t : List Char} (h : IsTypeText t) (rest : List Char) :
    splitType 0 (t ++ rest) = (t ++ (splitType 0 rest).1, (splitType 0 rest).2) := by
  have balanced : (0 : Int) + t.count '(' - t.count ')' = 0 := by
    rw [h.closed]
    omega
  have split := splitType_append 0 t rest (by
    intro k below space
    have opened := (h.spaced k below (by rw [space]; exact isBlank_space)).2.1
    omega)
  rwa [balanced] at split

theorem splitType_type_space {t more : List Char} (h : IsTypeText t) (colon : ':' ∈ more) :
    splitType 0 (t ++ ' ' :: more) = (t, more) := by
  rw [splitType_type h, splitType, if_pos ⟨rfl, rfl, colon⟩, List.append_nil]

theorem splitType_type_end {t : List Char} (h : IsTypeText t) : splitType 0 t = (t, []) := by
  have split := splitType_type h []
  rwa [splitType, List.append_nil] at split

theorem paramsOf_nil : paramsOf [] = [] := by
  rw [paramsOf.eq_def]
  rfl

/-- One parameter is read off a text that starts with a name and a colon. -/
theorem paramsOf_colon {name : List Char} (noColon : ':' ∉ name) (behind : List Char) :
    paramsOf (name ++ ':' :: behind) = param (trim name) (trim (splitType 0 behind).1) ::
      paramsOf (trim (splitType 0 behind).2) := by
  have run : ∀ c ∈ name, (c != ':') = true := by
    intro c member
    have different : c ≠ ':' := fun same => noColon (same ▸ member)
    simpa using different
  have stops : (':' != ':') = false := by decide
  have dropped := dropWhile_run run behind stops
  have taken := takeWhile_run run behind stops
  rw [paramsOf.eq_def]
  split
  · rename_i none
    rw [dropped] at none
    cases none
  · rename_i cons
    rw [dropped] at cons
    cases cons
    rw [taken]

end Definition

namespace Parameter.IsRegular

open Definition

variable {p : Parameter}

theorem name_letters (h : p.IsRegular) : ∀ c ∈ p.name.toList, isBlank c = false :=
  fun c member => (h.name_chars c member).1

theorem noColon (h : p.IsRegular) : ':' ∉ p.name.toList := by
  intro member
  exact (h.name_chars _ member).2 List.mem_cons_self

theorem isUniform_name (h : p.IsRegular) : IsUniform p.name.toList :=
  .word h.name_nonempty h.name_letters

theorem isUniform_renderParam (h : p.IsRegular) : IsUniform (renderParam p) := by
  have withColon : ∀ c ∈ p.name.toList ++ [':'], isBlank c = false := by
    rw [List.forall_mem_append, List.forall_mem_singleton]
    exact ⟨h.name_letters, by decide⟩
  have whole : renderParam p = (p.name.toList ++ [':']) ++ p.rawType.toList := by
    rw [List.append_assoc]
    rfl
  rw [whole]
  exact h.type.isUniform.letters_append withColon

theorem param_eq (h : p.IsRegular) : param p.name.toList p.rawType.toList = p := by
  obtain ⟨category, name, rawType⟩ := p
  have untagged : category = none := h.untagged
  simp [param, untagged]

theorem paramsOf_end (h : p.IsRegular) : paramsOf (renderParam p) = [p] := by
  rw [renderParam, paramsOf_colon h.noColon, splitType_type_end h.type, h.isUniform_name.trim_eq,
    h.type.isUniform.trim_eq, h.param_eq]
  exact congrArg (p :: ·) paramsOf_nil

/-- A parameter is read up to the next one. -/
theorem paramsOf_space (h : p.IsRegular) {more : List Char} (colon : ':' ∈ more)
    (uniform : IsUniform more) : paramsOf (renderParam p ++ ' ' :: more) = p :: paramsOf more := by
  rw [renderParam, List.append_assoc, List.cons_append, paramsOf_colon h.noColon,
    splitType_type_space h.type colon, h.isUniform_name.trim_eq, h.type.isUniform.trim_eq,
    uniform.trim_eq, h.param_eq]

end Parameter.IsRegular

namespace Definition

theorem colon_mem_renderParam (p : Parameter) : ':' ∈ renderParam p :=
  List.mem_append_right _ List.mem_cons_self

theorem isUniform_params {params : List Parameter} (nonempty : params ≠ [])
    (regular : ∀ p ∈ params, p.IsRegular) : IsUniform (layout (params.map renderParam)) := by
  refine IsUniform.layout (fun none => nonempty (List.map_eq_nil_iff.mp none)) ?_
  intro piece member
  obtain ⟨p, listed, rfl⟩ := List.mem_map.mp member
  exact (regular p listed).isUniform_renderParam

/-- Parameters are read back in the order in which they are written. -/
theorem paramsOf_layout {params : List Parameter} (regular : ∀ p ∈ params, p.IsRegular) :
    paramsOf (layout (params.map renderParam)) = params := by
  induction params with
  | nil => exact paramsOf_nil
  | cons p params ih =>
    have first := regular p List.mem_cons_self
    have others : ∀ q ∈ params, q.IsRegular := fun q member =>
      regular q (List.mem_cons_of_mem _ member)
    cases params with
    | nil =>
      rw [List.map_singleton, layout_singleton]
      exact first.paramsOf_end
    | cons q params =>
      have colon : ':' ∈ layout ((q :: params).map renderParam) := by
        rw [List.map_cons]
        cases params with
        | nil =>
          rw [List.map_nil, layout_singleton]
          exact colon_mem_renderParam q
        | cons r params =>
          rw [List.map_cons, layout_cons_cons]
          exact List.mem_append_left _ (colon_mem_renderParam q)
      rw [List.map_cons, List.map_cons, layout_cons_cons, ← List.map_cons,
        first.paramsOf_space colon (isUniform_params (List.cons_ne_nil _ _) others), ih others]

end Definition

end ContractAbi
