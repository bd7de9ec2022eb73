import ContractAbi.Proofs.Json.Layout
import ContractAbi.Schema.Encoding

/-!
# Documents and warnings survive JSON

Each record of a document, and each warning, is read back from the JSON value that it is written as.
Reading takes members by name, so an optional member that is absent stands in no one's way; a value
with several forms is told apart by its first member (`form?_object`). None of these values holds a
number, so that their texts are read back too.
-/

namespace ContractAbi

open Json

namespace Json

/-! ### Members by name -/

section Members

variable {fields : List (String × Json)} {name other : String} {v : Json}

theorem filter_eq_nil_of_absent (absent : name ∉ fields.map (·.1)) :
    fields.filter (·.1 == name) = [] := by
  refine List.filter_eq_nil_iff.mpr fun f member same => absent ?_
  rw [← beq_iff_eq.mp same]
  exact List.mem_map_of_mem member

@[simp] theorem member?_cons_self (absent : name ∉ fields.map (·.1)) :
    member? ((name, v) :: fields) name = some (some v) := by
  simp [member?, filter_eq_nil_of_absent absent]

@[simp] theorem member?_cons_of_ne (ne : other ≠ name) :
    member? ((other, v) :: fields) name = member? fields name := by
  simp [member?, ne]

@[simp] theorem member?_optional_self (absent : name ∉ fields.map (·.1)) (value : Option String) :
    member? (optionalMember name value ++ fields) name = some (value.map .string) := by
  cases value with
  | none =>
    simp [optionalMember, member?, filter_eq_nil_of_absent absent]
  | some s => exact member?_cons_self absent

@[simp] theorem member?_optional_of_ne (ne : other ≠ name) (value : Option String) :
    member? (optionalMember other value ++ fields) name = member? fields name := by
  cases value with
  | none => rfl
  | some s => exact member?_cons_of_ne ne

@[simp] theorem mem_names_optionalMember {value : Option String} :
    name ∈ (optionalMember other value).map (·.1) ↔ name = other ∧ value.isSome = true := by
  cases value with
  | none => simp [optionalMember]
  | some s => simp [optionalMember]

end Members

/-! ### Values -/

section Values

variable {α : Type} {read : Json → Option α}

@[simp] theorem required?_some (v : Json) : required? read (some v) = read v := rfl

@[simp] theorem optional?_some (default : α) (v : Json) :
    optional? default read (some v) = read v := rfl

@[simp] theorem string?_string (s : String) : (Json.string s).string? = some s := rfl

@[simp] theorem optional?_string (value : Option String) :
    optional? none (nullable? string?) (value.map .string) = some value := by
  cases value with
  | none => rfl
  | some s => rfl

/-- A list is read where each of its items is. -/
theorem list?_map {write : α → Json} (each : ∀ a, read (write a) = some a) (as : List α) :
    list? read (.array (as.map write)) = some as := by
  rw [list?]
  induction as with
  | nil => rfl
  | cons a as ih =>
    rw [List.map_cons, List.mapM_cons, each, ih]
    rfl

@[simp] theorem list?_strings (ss : List String) : list? string? (strings ss) = some ss :=
  list?_map string?_string ss

end Values

/-! ### Forms and nesting -/

/-- A value with several forms is split into the name of its form, which comes first, and the rest.
-/
@[simp] theorem form?_object {fields : List (String × Json)} {name form : String}
    (textual : IsTextual (.object fields)) (absent : name ∉ fields.map (·.1)) :
    (Json.object ((name, .string form) :: fields)).form? name = some (form, .object fields) := by
  have sound : isSound (.object ((name, .string form) :: fields)) = true := textual.isSound
  have others : fields.filter (·.1 != name) = fields := by
    refine List.filter_eq_self.mpr fun f member => bne_iff_ne.mpr fun same => absent ?_
    rw [← same]
    exact List.mem_map_of_mem member
  simp [form?, sound, absent, others]

theorem itemsNesting_le {items : List Json} {depth : Nat}
    (each : ∀ v ∈ items, v.nesting ≤ depth) : itemsNesting items ≤ depth := by
  induction items with
  | nil => exact Nat.zero_le depth
  | cons v vs ih =>
    exact Nat.max_le.mpr ⟨each v List.mem_cons_self,
      ih fun w member => each w (List.mem_cons_of_mem _ member)⟩

end Json

/-! ### Records are text -/

theorem Parameter.isTextual_toJson (p : Parameter) : IsTextual p.toJson := by
  simp [toJson]

theorem Definition.isTextual_toJson (d : Definition) : IsTextual d.toJson := by
  simp [toJson, toFields, Opcode.toJson, Parameter.isTextual_toJson]

theorem Interface.isTextual_toJson (i : Interface) : IsTextual i.toJson := by
  simp [toJson]

theorem GetMethod.isTextual_toJson (g : GetMethod) : IsTextual g.toJson := by
  simp [toJson, Parameter.isTextual_toJson]

theorem MessageBody.isTextual_toJson (b : MessageBody) : IsTextual b.toJson := by
  cases b with
  | parsed d =>
    have definition : IsTextual (.object d.toFields) := d.isTextual_toJson
    simp [toJson, definition]
  | malformed text reason => simp [toJson]

theorem Message.isTextual_toJson (m : Message) : IsTextual m.toJson := by
  simp [toJson, MessageBody.isTextual_toJson]

theorem Document.isTextual_toJson (doc : Document) : IsTextual doc.toJson := by
  simp [toJson, Interface.isTextual_toJson, GetMethod.isTextual_toJson, Message.isTextual_toJson]

/-! ### Records are read back -/

theorem Opcode.ofJson?_toJson (op : Opcode) : ofJson? op.toJson = some op := by
  have digits : unmarked op.text.toList = op.digits.toList := by simp [text, unmarked]
  have read : parse op.text = .ok op := by rw [parse, digits, ofDigits_digits]
  simp [toJson, ofJson?, read]

theorem Parameter.ofJson?_toJson (p : Parameter) : ofJson? p.toJson = some p := by
  simp [toJson, ofJson?, members?]

theorem Definition.ofJson?_toJson (d : Definition) : ofJson? d.toJson = some d := by
  have opcode := d.opcode.ofJson?_toJson
  have params := list?_map Parameter.ofJson?_toJson d.params
  simp [toJson, toFields, ofJson?, members?, opcode, params]

theorem Interface.ofJson?_toJson (i : Interface) : ofJson? i.toJson = some i := by
  simp [toJson, ofJson?, members?]

theorem GetMethod.ofJson?_toJson (g : GetMethod) : ofJson? g.toJson = some g := by
  have inputs := list?_map Parameter.ofJson?_toJson g.inputs
  have outputs := list?_map Parameter.ofJson?_toJson g.outputs
  simp [toJson, ofJson?, members?, inputs, outputs]

theorem Parameter.nesting_toJson (p : Parameter) : p.toJson.nesting = 1 := by
  cases tag : p.category with
  | none => simp [toJson, optionalMember, nesting, fieldsNesting, tag]
  | some s => simp [toJson, optionalMember, nesting, fieldsNesting, tag]

/-- The parameters are the deepest part of a message's text. -/
theorem MessageBody.nesting_toJson_le (b : MessageBody) : b.toJson.nesting ≤ maxNesting := by
  cases b with
  | parsed d =>
    have params : itemsNesting (d.params.map Parameter.toJson) ≤ 1 := by
      refine itemsNesting_le fun v member => ?_
      obtain ⟨p, -, rfl⟩ := List.mem_map.mp member
      exact p.nesting_toJson.le
    have levels : (MessageBody.parsed d).toJson.nesting =
        itemsNesting (d.params.map Parameter.toJson) + 2 := by
      simp [toJson, Definition.toFields, Opcode.toJson, nesting, fieldsNesting]
    rw [levels, maxNesting]
    omega
  | malformed text reason => exact Nat.le_add_left 1 123

theorem MessageBody.ofJson?_toJson (b : MessageBody) : ofJson? b.toJson = some b := by
  rw [ofJson?, if_pos b.nesting_toJson_le]
  cases b with
  | parsed d =>
    have form : (MessageBody.parsed d).toJson.form? "status" = some ("parsed", d.toJson) :=
      form?_object d.isTextual_toJson (by simp [Definition.toFields])
    have read := d.ofJson?_toJson
    simp [form, read]
  | malformed text reason => simp [toJson, members?]

theorem Message.ofJson?_toJson (m : Message) : ofJson? m.toJson = some m := by
  have body := m.body.ofJson?_toJson
  simp [toJson, ofJson?, members?, body]

/-- A document is read from its own JSON. -/
theorem Document.ofJson?_toJson (doc : Document) : ofJson? doc.toJson = some doc := by
  have interfaces := list?_map Interface.ofJson?_toJson doc.interfaces
  have getMethods := list?_map GetMethod.ofJson?_toJson doc.getMethods
  have messages := list?_map Message.ofJson?_toJson doc.messages
  simp [toJson, ofJson?, members?, interfaces, getMethods, messages]

theorem ReferenceKind.ofJson?_tag (k : ReferenceKind) : ofJson? (.string k.tag) = some k := by
  cases k <;> rfl

theorem RecordKind.ofJson?_tag (k : RecordKind) : ofJson? (.string k.tag) = some k := by
  cases k <;> rfl

theorem Warning.isTextual_toJson (w : Warning) : IsTextual w.toJson := by
  cases w with
  | malformedMessage | danglingReference | missingParent | cycleDetected | duplicateName =>
    simp [toJson]

theorem Warning.ofJson?_toJson (w : Warning) : ofJson? w.toJson = some w := by
  cases w with
  | danglingReference interface kind name =>
    have tag := kind.ofJson?_tag
    simp [ofJson?, toJson, members?, tag]
  | duplicateName kind name =>
    have tag := kind.ofJson?_tag
    simp [ofJson?, toJson, members?, tag]
  | malformedMessage | missingParent | cycleDetected => simp [ofJson?, toJson, members?]

/-! ### Texts -/

theorem Document.ofDump?_dump (doc : Document) : ofDump? doc.dump = some doc := by
  rw [ofDump?, dump, parse_pretty doc.isTextual_toJson]
  exact doc.ofJson?_toJson

/-- A document is read back from its dump with every option, text and digit as it was, and a warning
from its JSON value in either layout. -/
theorem survive_json (doc : Document) (w : Warning) :
    Document.ofDump? doc.dump = some doc ∧
    (parse w.toJson.compact).bind Warning.ofJson? = some w ∧
    (parse w.toJson.pretty).bind Warning.ofJson? = some w := by
  refine ⟨doc.ofDump?_dump, ?_, ?_⟩
  · rw [parse_compact w.isTextual_toJson]
    exact w.ofJson?_toJson
  · rw [parse_pretty w.isTextual_toJson]
    exact w.ofJson?_toJson

end ContractAbi
