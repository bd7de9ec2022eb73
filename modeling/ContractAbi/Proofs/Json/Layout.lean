import Mathlib.Data.List.DropRight
import ContractAbi.Proofs.Json.Literal

/-!
# Layouts of JSON values

A value without numbers has many texts, which differ in the white space between their parts
(`Written`). Each of them is read back to the value (`parse_of_written`). Both layouts that are
written here are among them, so that reading undoes writing (`parse_pretty`, `parse_compact`).
-/

namespace ContractAbi.Json

/-! ### White space -/

/-- A text of white space. -/
def IsSpace (cs : List Char) : Prop := skipSpace cs = []

theorem isSpace_nil : IsSpace [] := rfl

theorem skipSpace_append {space : List Char} (blank : IsSpace space) (cs : List Char) :
    skipSpace (space ++ cs) = skipSpace cs :=
  List.dropWhile_append_of_pos (List.dropWhile_eq_nil_iff.mp blank)

theorem skipSpace_skipSpace (cs : List Char) : skipSpace (skipSpace cs) = skipSpace cs :=
  List.dropWhile_idempotent _ cs

theorem readValue_skipSpace (bound : Nat) (cs : List Char) :
    readValue bound (skipSpace cs) = readValue bound cs := by
  cases bound with
  | zero => rfl
  | succ bound => rw [readValue, readValue, skipSpace_skipSpace]

theorem readValue_space {space : List Char} (blank : IsSpace space) (bound : Nat)
    (cs : List Char) : readValue bound (space ++ cs) = readValue bound cs := by
  rw [← readValue_skipSpace, skipSpace_append blank, readValue_skipSpace]

theorem readItems_skipSpace (bound : Nat) (cs : List Char) (seen : List Json) :
    readItems bound (skipSpace cs) seen = readItems bound cs seen := by
  cases bound with
  | zero => rfl
  | succ bound => rw [readItems, readItems, readValue_skipSpace]

theorem readFields_skipSpace (bound : Nat) (cs : List Char)
    (seen : Option (List (String × Json))) :
    readFields bound (skipSpace cs) seen = readFields bound cs seen := by
  cases bound with
  | zero => rfl
  | succ bound => rw [readFields, readFields, skipSpace_skipSpace]

/-! ### The texts of a value -/

mutual

/-- The texts of a value, with any white space between its parts. A number has none. -/
inductive Written : Json → List Char → Prop
  | null : Written .null "null".toList
  | bool (b : Bool) : Written (.bool b) (if b then "true" else "false").toList
  | string (s : String) : Written (.string s) (quote s).toList
  | emptyArray {space} : IsSpace space → Written (.array []) ('[' :: (space ++ [']']))
  | array {items text} : WrittenItems items text → Written (.array items) ('[' :: text)
  | emptyObject {space} : IsSpace space → Written (.object []) ('\x7b' :: (space ++ ['\x7d']))
  | object {fields text} : WrittenFields fields text → Written (.object fields) ('\x7b' :: text)

/-- The texts of the items of an array with its closing bracket. -/
inductive WrittenItems : List Json → List Char → Prop
  | last {before behind v text} : IsSpace before → IsSpace behind → Written v text →
      WrittenItems [v] (before ++ (text ++ (behind ++ [']'])))
  | cons {before behind v text vs more} : IsSpace before → IsSpace behind → Written v text →
      WrittenItems vs more → WrittenItems (v :: vs) (before ++ (text ++ (behind ++ ',' :: more)))

/-- The texts of the members of an object with its closing brace. -/
inductive WrittenFields : List (String × Json) → List Char → Prop
  | last {before gap behind k v text} : IsSpace before → IsSpace gap → IsSpace behind →
      Written v text → WrittenFields [(k, v)]
        (before ++ ((quote k).toList ++ ':' :: (gap ++ (text ++ (behind ++ ['\x7d'])))))
  | cons {before gap behind k v text fields more} : IsSpace before → IsSpace gap →
      IsSpace behind → Written v text → WrittenFields fields more → WrittenFields ((k, v) :: fields)
        (before ++ ((quote k).toList ++ ':' :: (gap ++ (text ++ (behind ++ ',' :: more)))))

end

/-! ### Reading them -/

variable {v : Json} {text rest : List Char} {items : List Json} {fields : List (String × Json)}

/-- A value starts with a character that is neither white space nor a closing bracket. -/
theorem Written.exists_cons (written : Written v text) :
    ∃ c cs, text = c :: cs ∧ (∀ ds, skipSpace (c :: ds) = c :: ds) ∧ c ≠ ']' := by
  cases written with
  | null => exact ⟨'n', _, rfl, fun _ => rfl, by decide⟩
  | bool b =>
    cases b with
    | true => exact ⟨'t', _, rfl, fun _ => rfl, by decide⟩
    | false => exact ⟨'f', _, rfl, fun _ => rfl, by decide⟩
  | string s => exact ⟨'"', _, toList_quote s, fun _ => rfl, by decide⟩
  | emptyArray | array => exact ⟨'[', _, rfl, fun _ => rfl, by decide⟩
  | emptyObject | object => exact ⟨'\x7b', _, rfl, fun _ => rfl, by decide⟩

theorem WrittenItems.skipSpace_ne (written : WrittenItems items text) (tail : List Char) :
    skipSpace (text ++ rest) ≠ ']' :: tail := by
  have noBracket : ∀ {before v text more}, IsSpace before → Written v text →
      skipSpace (before ++ (text ++ more) ++ rest) ≠ ']' :: tail := by
    intro before v text more blank written
    obtain ⟨c, cs, rfl, visible, other⟩ := written.exists_cons
    rw [List.append_assoc, skipSpace_append blank, List.cons_append, List.cons_append, visible]
    intro same
    exact other (List.cons.inj same).1
  cases written with
  | last blank _ value => exact noBracket blank value
  | cons blank _ value => exact noBracket blank value

theorem WrittenFields.skipSpace_ne (written : WrittenFields fields text) (tail : List Char) :
    skipSpace (text ++ rest) ≠ '\x7d' :: tail := by
  have noBrace : ∀ {before k more}, IsSpace before →
      skipSpace (before ++ ((quote k).toList ++ more) ++ rest) ≠ '\x7d' :: tail := by
    intro before k more blank
    rw [List.append_assoc, skipSpace_append blank, toList_quote]
    exact nofun
  cases written with
  | last blank => exact noBrace blank
  | cons blank => exact noBrace blank

theorem readValue_bracket (bound : Nat) (cs : List Char) :
    readValue (bound + 1) ('[' :: cs) =
      match skipSpace cs with
      | ']' :: rest => some (.array [], rest)
      | rest => (readItems bound rest []).map fun (items, rest) => (.array items, rest) := by
  rw [readValue]
  rfl

theorem readValue_brace (bound : Nat) (cs : List Char) :
    readValue (bound + 1) ('\x7b' :: cs) =
      match skipSpace cs with
      | '\x7d' :: rest => some (.object [], rest)
      | rest => readFields bound rest (some []) := by
  rw [readValue]
  rfl

theorem readValue_array {bound : Nat} {cs : List Char}
    (nonempty : ∀ tail, skipSpace cs ≠ ']' :: tail) :
    readValue (bound + 1) ('[' :: cs) =
      (readItems bound cs []).map fun (items, rest) => (.array items, rest) := by
  rw [readValue_bracket]
  split
  · rename_i tail same
    exact absurd same (nonempty tail)
  · rw [readItems_skipSpace]

theorem readValue_object {bound : Nat} {cs : List Char}
    (nonempty : ∀ tail, skipSpace cs ≠ '\x7d' :: tail) :
    readValue (bound + 1) ('\x7b' :: cs) = readFields bound cs (some []) := by
  rw [readValue_brace]
  split
  · rename_i tail same
    exact absurd same (nonempty tail)
  · rw [readFields_skipSpace]

section

variable {bound : Nat} {before gap behind more : List Char} {k : String}

/-- The last item of an array, with space on both sides. -/
theorem readItems_last (seen : List Json) (blank : IsSpace before) (space : IsSpace behind)
    (read : readValue bound (text ++ (behind ++ ']' :: more)) = some (v, behind ++ ']' :: more)) :
    readItems (bound + 1) (before ++ (text ++ (behind ++ ']' :: more))) seen =
      some (seen.reverse ++ [v], more) := by
  have close : skipSpace (behind ++ ']' :: more) = ']' :: more := skipSpace_append space _
  rw [readItems, readValue_space blank, read]
  simp only [close, List.reverse_cons]

theorem readItems_cons (seen : List Json) (blank : IsSpace before) (space : IsSpace behind)
    (read : readValue bound (text ++ (behind ++ ',' :: more)) = some (v, behind ++ ',' :: more)) :
    readItems (bound + 1) (before ++ (text ++ (behind ++ ',' :: more))) seen =
      readItems bound more (v :: seen) := by
  have next : skipSpace (behind ++ ',' :: more) = ',' :: more := skipSpace_append space _
  rw [readItems, readValue_space blank, read]
  simp only [next]

/-- In front of a member stands its name, which is read up to the colon. -/
theorem skipSpace_member (blank : IsSpace before) (cs : List Char) :
    skipSpace (before ++ ((quote k).toList ++ ':' :: cs)) =
      '"' :: (k.toList.flatMap escapeChar ++ '"' :: ':' :: cs) := by
  rw [skipSpace_append blank, toList_quote, List.cons_append, List.append_assoc]
  rfl

theorem skipSpace_colon (cs : List Char) : skipSpace (':' :: cs) = ':' :: cs := rfl

/-- The last member of an object, with space on both sides and behind its name. -/
theorem readFields_last (seen : List (String × Json)) (blank : IsSpace before)
    (gapped : IsSpace gap) (space : IsSpace behind)
    (read : readValue bound (text ++ (behind ++ '\x7d' :: more)) =
      some (v, behind ++ '\x7d' :: more)) :
    readFields (bound + 1) (before ++ ((quote k).toList ++ ':' ::
        (gap ++ (text ++ (behind ++ '\x7d' :: more))))) (some seen) =
      some (.object (seen.reverse ++ [(k, v)]), more) := by
  have close : skipSpace (behind ++ '\x7d' :: more) = '\x7d' :: more := skipSpace_append space _
  rw [readFields, skipSpace_member blank]
  simp only [readString_quote, skipSpace_colon, readValue_space gapped, read, close, string?,
    Option.bind_some, Option.map_some, List.reverse_cons]

theorem readFields_cons (seen : List (String × Json)) (blank : IsSpace before)
    (gapped : IsSpace gap) (space : IsSpace behind)
    (read : readValue bound (text ++ (behind ++ ',' :: more)) =
      some (v, behind ++ ',' :: more)) :
    readFields (bound + 1) (before ++ ((quote k).toList ++ ':' ::
        (gap ++ (text ++ (behind ++ ',' :: more))))) (some seen) =
      readFields bound more (some ((k, v) :: seen)) := by
  have next : skipSpace (behind ++ ',' :: more) = ',' :: more := skipSpace_append space _
  rw [readFields, skipSpace_member blank]
  simp only [readString_quote, skipSpace_colon, readValue_space gapped, read, next, string?,
    Option.bind_some, Option.map_some]

end

mutual

/-- Each text of a value is read to the value, whatever comes behind it. The length of the text
bounds the calls that this takes. -/
theorem Written.readValue_eq {v : Json} {text : List Char} (written : Written v text)
    {bound : Nat} (enough : text.length ≤ bound) (rest : List Char) :
    readValue bound (text ++ rest) = some (v, rest) := by
  obtain ⟨bound, rfl⟩ : ∃ less, bound = less + 1 := by
    obtain ⟨c, cs, rfl, -⟩ := written.exists_cons
    exact Nat.exists_eq_succ_of_ne_zero (Nat.ne_of_gt (Nat.lt_of_lt_of_le (by simp) enough))
  cases written with
  | null => rfl
  | bool b => cases b <;> rfl
  | string s =>
    rw [toList_quote, List.cons_append, List.append_assoc]
    exact readString_quote s rest
  | emptyArray blank =>
    rw [List.cons_append, List.append_assoc, readValue_bracket, skipSpace_append blank]
    rfl
  | array items =>
    rw [List.cons_append, readValue_array items.skipSpace_ne,
      items.readItems_eq (Nat.le_of_succ_le_succ enough)]
    rfl
  | emptyObject blank =>
    rw [List.cons_append, List.append_assoc, readValue_brace, skipSpace_append blank]
    rfl
  | object fields =>
    rw [List.cons_append, readValue_object fields.skipSpace_ne,
      fields.readFields_eq (Nat.le_of_succ_le_succ enough)]
    rfl

theorem WrittenItems.readItems_eq {items : List Json} {text : List Char}
    (written : WrittenItems items text) {bound : Nat} (enough : text.length ≤ bound)
    (rest : List Char) (seen : List Json) :
    readItems bound (text ++ rest) seen = some (seen.reverse ++ items, rest) := by
  cases written with
  | last before behind value =>
    simp only [List.length_append, List.length_singleton] at enough
    obtain ⟨bound, rfl⟩ : ∃ less, bound = less + 1 := ⟨bound - 1, by omega⟩
    simp only [List.append_assoc, List.singleton_append]
    exact readItems_last seen before behind (value.readValue_eq (by omega) _)
  | cons before behind value items =>
    simp only [List.length_append, List.length_cons] at enough
    obtain ⟨bound, rfl⟩ : ∃ less, bound = less + 1 := ⟨bound - 1, by omega⟩
    simp only [List.append_assoc, List.cons_append]
    rw [readItems_cons seen before behind (value.readValue_eq (by omega) _),
      items.readItems_eq (by omega), List.reverse_cons, List.append_assoc, List.singleton_append]

theorem WrittenFields.readFields_eq {fields : List (String × Json)} {text : List Char}
    (written : WrittenFields fields text) {bound : Nat} (enough : text.length ≤ bound)
    (rest : List Char) (seen : List (String × Json)) :
    readFields bound (text ++ rest) (some seen) = some (.object (seen.reverse ++ fields), rest) := by
  cases written with
  | last before gap behind value =>
    simp only [List.length_append, List.length_cons] at enough
    obtain ⟨bound, rfl⟩ : ∃ less, bound = less + 1 := ⟨bound - 1, by omega⟩
    simp only [List.append_assoc, List.cons_append, List.nil_append]
    exact readFields_last seen before gap behind (value.readValue_eq (by omega) _)
  | cons before gap behind value fields =>
    simp only [List.length_append, List.length_cons] at enough
    obtain ⟨bound, rfl⟩ : ∃ less, bound = less + 1 := ⟨bound - 1, by omega⟩
    simp only [List.append_assoc, List.cons_append]
    rw [readFields_cons seen before gap behind (value.readValue_eq (by omega) _),
      fields.readFields_eq (by omega), List.reverse_cons, List.append_assoc,
      List.singleton_append]

end

/-- What is written in any layout is parsed. -/
theorem parse_of_written {text : String} (written : Written v text.toList) :
    parse text = some v := by
  have enough : text.toList.length ≤ 2 * text.toList.length + 2 := by omega
  have read := written.readValue_eq enough []
  rw [List.append_nil] at read
  rw [parse, read]
  rfl

/-! ### The layouts that are written -/

/-- No number stands in the value, and its texts are whole. -/
inductive IsTextual : Json → Prop
  | null : IsTextual .null
  | bool (b : Bool) : IsTextual (.bool b)
  | string (s : String) : IsTextual (.string s)
  | array {vs} : (∀ v ∈ vs, IsTextual v) → IsTextual (.array vs)
  | object {fs} : (∀ f ∈ fs, IsTextual f.2) → IsTextual (.object fs)

theorem areSound_of_forall (each : ∀ v ∈ items, v.isSound = true) : areSound items = true := by
  induction items with
  | nil => rfl
  | cons v vs ih =>
    obtain ⟨first, rest⟩ := List.forall_mem_cons.mp each
    rw [areSound, first, ih rest]
    rfl

theorem fieldsAreSound_of_forall (each : ∀ f ∈ fields, f.2.isSound = true) :
    fieldsAreSound fields = true := by
  induction fields with
  | nil => rfl
  | cons f fs ih =>
    obtain ⟨first, rest⟩ := List.forall_mem_cons.mp each
    rw [fieldsAreSound, first, ih rest]
    rfl

namespace IsTextual

attribute [simp] IsTextual.string

@[simp] theorem array_iff : IsTextual (.array items) ↔ ∀ v ∈ items, IsTextual v :=
  ⟨fun | .array each => each, .array⟩

@[simp] theorem object_nil : IsTextual (.object []) := .object nofun

@[simp] theorem object_cons_iff {name : String} : IsTextual (.object ((name, v) :: fields)) ↔
    IsTextual v ∧ IsTextual (.object fields) := by
  constructor
  · rintro (_ | _ | _ | _ | each)
    exact ⟨each (name, v) List.mem_cons_self, .object fun f member =>
      each f (List.mem_cons_of_mem _ member)⟩
  · rintro ⟨value, _ | _ | _ | _ | each⟩
    exact .object (List.forall_mem_cons.mpr ⟨value, each⟩)

@[simp] theorem object_optional_iff {name : String} {value : Option String} :
    IsTextual (.object (optionalMember name value ++ fields)) ↔ IsTextual (.object fields) := by
  cases value with
  | none => rfl
  | some s => simp [optionalMember]

@[simp] theorem strings (ss : List String) : IsTextual (strings ss) := by
  simp [Json.strings]

theorem isSound (textual : IsTextual v) : v.isSound = true := by
  induction textual with
  | null | bool | string => rfl
  | array _ ih =>
    rw [Json.isSound]
    exact areSound_of_forall ih
  | object _ ih =>
    rw [Json.isSound]
    exact fieldsAreSound_of_forall ih

end IsTextual

theorem writtenItems_intercalate {before behind : List Char} (render : Json → List Char)
    (blank : IsSpace before) (space : IsSpace behind) (nonempty : items ≠ [])
    (each : ∀ v ∈ items, Written v (render v)) :
    WrittenItems items
      ([','].intercalate (items.map fun v => before ++ render v) ++ (behind ++ [']'])) := by
  induction items with
  | nil => exact absurd rfl nonempty
  | cons v vs ih =>
    have first := each v List.mem_cons_self
    cases vs with
    | nil => simpa using WrittenItems.last blank space first
    | cons w ws =>
      have rest := ih (List.cons_ne_nil w ws) fun v member => each v (List.mem_cons_of_mem _ member)
      simpa [List.intercalate_cons_cons] using WrittenItems.cons blank isSpace_nil first rest

theorem writtenFields_intercalate {before gap behind : List Char} (render : Json → List Char)
    (blank : IsSpace before) (gapped : IsSpace gap) (space : IsSpace behind)
    (nonempty : fields ≠ []) (each : ∀ f ∈ fields, Written f.2 (render f.2)) :
    WrittenFields fields
      ([','].intercalate (fields.map fun f =>
        before ++ ((quote f.1).toList ++ ':' :: (gap ++ render f.2))) ++ (behind ++ ['\x7d'])) := by
  induction fields with
  | nil => exact absurd rfl nonempty
  | cons f fs ih =>
    have first := each f List.mem_cons_self
    cases fs with
    | nil => simpa using WrittenFields.last blank gapped space first
    | cons g gs =>
      have rest := ih (List.cons_ne_nil g gs) fun f member => each f (List.mem_cons_of_mem _ member)
      simpa [List.intercalate_cons_cons] using
        WrittenFields.cons blank gapped isSpace_nil first rest

theorem compactItems_eq (items : List Json) : compactItems items = items.map compact := by
  induction items with
  | nil => rfl
  | cons v vs ih => rw [compactItems, ih, List.map_cons]

theorem compactFields_eq (fields : List (String × Json)) :
    compactFields fields = fields.map fun f => quote f.1 ++ ":" ++ compact f.2 := by
  induction fields with
  | nil => rfl
  | cons f fs ih => rw [compactFields, ih, List.map_cons]

theorem prettyItems_eq (depth : Nat) (items : List Json) :
    prettyItems depth items = items.map fun v => lineBreak depth ++ prettyAt depth v := by
  induction items with
  | nil => rfl
  | cons v vs ih => rw [prettyItems, ih, List.map_cons]

theorem prettyFields_eq (depth : Nat) (fields : List (String × Json)) :
    prettyFields depth fields =
      fields.map fun f => lineBreak depth ++ quote f.1 ++ ": " ++ prettyAt depth f.2 := by
  induction fields with
  | nil => rfl
  | cons f fs ih => rw [prettyFields, ih, List.map_cons]

theorem isSpace_lineBreak (depth : Nat) : IsSpace (lineBreak depth).toList := by
  refine List.dropWhile_eq_nil_iff.mpr fun c member => ?_
  simp only [lineBreak, String.toList_append, String.toList_ofList] at member
  rcases List.mem_append.mp member with start | spaces
  · have char : c = '\n' := List.mem_singleton.mp start
    rw [char]
    rfl
  · have char : c = ' ' := List.eq_of_mem_replicate spaces
    rw [char]
    rfl

theorem IsTextual.written_compact (textual : IsTextual v) : Written v (compact v).toList := by
  induction textual with
  | null => exact .null
  | bool b => exact .bool b
  | string s => exact .string s
  | @array items _ ih =>
    by_cases empty : items = []
    · rw [empty]
      exact .emptyArray isSpace_nil
    · have written := writtenItems_intercalate (fun v => (compact v).toList) isSpace_nil
        isSpace_nil empty ih
      simpa [compact, compactItems_eq, Function.comp_def] using Written.array written
  | @object fields _ ih =>
    by_cases empty : fields = []
    · rw [empty]
      exact .emptyObject isSpace_nil
    · have written := writtenFields_intercalate (fun v => (compact v).toList) isSpace_nil
        isSpace_nil isSpace_nil empty ih
      simpa [compact, compactFields_eq, Function.comp_def] using Written.object written

/-- Line breaks and indentation make a layout too, at each depth. -/
theorem IsTextual.written_prettyAt (textual : IsTextual v) (depth : Nat) :
    Written v (prettyAt depth v).toList := by
  induction textual generalizing depth with
  | null => exact .null
  | bool b => exact .bool b
  | string s => exact .string s
  | @array items _ ih =>
    by_cases empty : items = []
    · rw [empty, prettyAt, if_pos List.isEmpty_nil]
      exact .emptyArray isSpace_nil
    · have written := writtenItems_intercalate (fun v => (prettyAt (depth + 1) v).toList)
        (isSpace_lineBreak (depth + 1)) (isSpace_lineBreak depth) empty
        fun v member => ih v member (depth + 1)
      simpa [prettyAt, empty, prettyItems_eq, Function.comp_def] using Written.array written
  | @object fields _ ih =>
    by_cases empty : fields = []
    · rw [empty, prettyAt, if_pos List.isEmpty_nil]
      exact .emptyObject isSpace_nil
    · have gap : IsSpace [' '] := rfl
      have written := writtenFields_intercalate (fun v => (prettyAt (depth + 1) v).toList)
        (isSpace_lineBreak (depth + 1)) gap (isSpace_lineBreak depth) empty
        fun f member => ih f member (depth + 1)
      simpa [prettyAt, empty, prettyFields_eq, Function.comp_def] using Written.object written

theorem parse_compact (textual : IsTextual v) : parse v.compact = some v :=
  parse_of_written textual.written_compact

theorem parse_pretty (textual : IsTextual v) : parse v.pretty = some v :=
  parse_of_written (textual.written_prettyAt 0)

end ContractAbi.Json
