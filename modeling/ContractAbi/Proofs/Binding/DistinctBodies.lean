import Mathlib.Data.List.Induction
import ContractAbi.Binding.Model
import ContractAbi.Proofs.Binding.AddedRecords

/-!
# How many data types a body has

A message with a definition shares the first data type of its definition name, or gets one of its
own. So the body that comes first under its definition name has one data type, however often it is
repeated, but any other one has as many as there are messages with it
(`Model.count_body_dataTypes`). No two data types have the same body if and only if only the first
body of a definition name is repeated (`Model.dataTypes_distinct_iff`).
-/

namespace ContractAbi

namespace Binding

open Document (firstDefinition?)

/-- What two messages need to have in common to say the same. -/
structure Body where
  definition : String
  /-- The digits of the opcode, in lower case. -/
  opcode : List Char
  fields : List Field
  deriving DecidableEq

/-- The body of a definition. -/
def bodyOf (d : Definition) : Body := ⟨d.name, Text.lower d.opcode.digits.toList, bodyFields d⟩

namespace DataType

/-- The body that a data type stands for. -/
def body (type : DataType) : Body :=
  ⟨type.definitionName, Text.lower type.opcode.digits.toList, type.fields⟩

/-- Two data types stand for the same body. -/
def SameBody (a b : DataType) : Prop :=
  a.definitionName = b.definitionName ∧ a.opcode.same b.opcode = true ∧ a.fields = b.fields

instance : DecidableRel SameBody := fun _ _ => inferInstanceAs (Decidable (_ ∧ _ ∧ _))

theorem body_eq_iff {a b : DataType} : a.body = b.body ↔ a.SameBody b := by
  simp [body, SameBody, Opcode.same]

/-- A data type of this name has the body of a definition just if it holds it. -/
theorem body_eq_bodyOf_iff {type : DataType} {d : Definition}
    (named : type.definitionName = d.name) : type.body = bodyOf d ↔ type.Holds d := by
  simp [body, bodyOf, Holds, Opcode.same, named]

end DataType

/-- A body is entered, unless the first one of its definition name is the same. -/
def enter (bodies : List Body) (b : Body) : List Body :=
  if bodies.find? (·.definition == b.definition) = some b then bodies else bodies ++ [b]

section Enter

variable {bodies : List Body} {b : Body}

/-- Entering a body does not show when the first body of a name is looked up. -/
theorem find?_enter (bodies : List Body) (b : Body) (name : String) :
    (enter bodies b).find? (·.definition == name) =
      (bodies ++ [b]).find? (·.definition == name) := by
  rw [enter]
  split
  · rename_i known
    rw [List.find?_append]
    by_cases same : b.definition = name
    · rw [← same, known, Option.some_or]
    · simp [same]
  · rfl

/-- The first body of a name stays the first, whatever is entered later. -/
theorem find?_foldl_enter (more : List Body) (name : String) :
    (more.foldl enter bodies).find? (·.definition == name) =
      (bodies ++ more).find? (·.definition == name) := by
  induction more generalizing bodies with
  | nil => simp
  | cons b more ih =>
    rw [List.foldl_cons, ih, List.find?_append, find?_enter, ← List.find?_append, List.append_assoc,
      List.singleton_append]

/-- The last body is the first of its name where no other one has the name. -/
theorem find?_concat_eq_some_iff {c : Body} :
    (bodies ++ [b]).find? (·.definition == c.definition) = some c ↔
      bodies.find? (·.definition == c.definition) = some c ∨
        bodies.find? (·.definition == c.definition) = none ∧ b = c := by
  rw [List.find?_append, Option.or_eq_some_iff]
  refine or_congr_right (and_congr_right fun _ => ?_)
  rw [List.find?_singleton]
  constructor
  · intro found
    split at found
    · exact Option.some.inj found
    · cases found
  · intro same
    simp [same]

theorem count_enter_of_ne {c : Body} (other : b ≠ c) :
    (enter bodies b).count c = bodies.count c := by
  rw [enter]
  split
  · rfl
  · simp [other]

/-- How often a body is there when all have been entered. -/
theorem count_foldl_enter (bodies : List Body) (c : Body) :
    (bodies.foldl enter []).count c =
      if bodies.find? (·.definition == c.definition) = some c then 1 else bodies.count c := by
  induction bodies using List.reverseRecOn with
  | nil => rfl
  | append_singleton bodies b ih =>
    rw [List.foldl_concat]
    by_cases same : b = c
    · subst same
      have first : (bodies.foldl enter []).find? (·.definition == b.definition) =
          bodies.find? (·.definition == b.definition) := find?_foldl_enter bodies b.definition
      by_cases known : bodies.find? (·.definition == b.definition) = some b
      · -- The body is the first of its name, so that nothing is entered.
        rw [enter, first, if_pos known, ih, if_pos known,
          if_pos (find?_concat_eq_some_iff.mpr (.inl known))]
      · rw [enter, first, if_neg known, List.count_append, List.count_append, ih, if_neg known]
        split
        · rename_i found
          obtain ⟨missing, -⟩ := (find?_concat_eq_some_iff.mp found).resolve_left known
          have absent : b ∉ bodies := by
            intro member
            exact List.find?_eq_none.mp missing b member (by simp)
          simp [List.count_eq_zero.mpr absent]
        · rfl
    · rw [count_enter_of_ne same, ih]
      simp [same]

end Enter

/-- The definitions that count: of the messages of a name, the first one that has a definition. The
messages in `before` come before the others. -/
def countedDefinitions (before : List Message) : List Message → List Definition
  | [] => []
  | m :: rest =>
    let own := if firstDefinition? before m.name = none then m.definition?.toList else []
    own ++ countedDefinitions (before ++ [m]) rest

theorem firstDefinition?_cons (m : Message) (rest : List Message) (name : String) :
    firstDefinition? (m :: rest) name =
      (if m.name = name then m.definition? else none).or (firstDefinition? rest name) := by
  rw [firstDefinition?, firstDefinition?, List.filter_cons]
  by_cases same : m.name = name
  · cases defined : m.definition? <;> simp [same, defined]
  · simp [same]

/-- A definition counts if a name finds it that has found nothing before. -/
theorem mem_countedDefinitions_iff {before more : List Message} {d : Definition} :
    d ∈ countedDefinitions before more ↔ ∃ name,
      firstDefinition? before name = none ∧ firstDefinition? more name = some d := by
  -- By induction on the messages; the one in front joins those before.
  induction more generalizing before with
  | nil =>
    have nothing (name : String) : firstDefinition? [] name = none := rfl
    simp [countedDefinitions, nothing]
  | cons m rest ih =>
    simp only [countedDefinitions, List.mem_append, ih, firstDefinition?_cons,
      Document.firstDefinition?_concat, Option.or_eq_none_iff, Option.or_eq_some_iff]
    constructor
    · intro counts
      rcases counts with own | ⟨name, ⟨new, other⟩, found⟩
      · split at own
        · rename_i new
          exact ⟨m.name, new, .inl (by simpa using own)⟩
        · cases own
      · exact ⟨name, new, .inr ⟨other, found⟩⟩
    · intro counts
      obtain ⟨name, new, found⟩ := counts
      rcases found with first | ⟨other, found⟩
      · split at first
        · rename_i same
          subst same
          exact .inl (by simpa [new] using first)
        · cases first
      · exact .inr ⟨name, ⟨new, other⟩, found⟩

namespace MessageTable

variable {t : MessageTable} {m : Message}

/-- The bodies of the data types. -/
def bodies (t : MessageTable) : List Body := t.dataTypes.map DataType.body

theorem find?_bodies (t : MessageTable) (name : String) :
    t.bodies.find? (·.definition == name) = (t.ofDefinition? name).map DataType.body := by
  rw [bodies, List.find?_map]
  rfl

/-- A message that is not passed over enters the body of its definition. -/
theorem bodies_add {d : Definition} (defined : m.definition? = some d)
    (new : t.lookup m.name = none) : (t.add m).bodies = enter t.bodies (bodyOf d) := by
  have created (base : String) : (t.create m.name base d).bodies = t.bodies ++ [bodyOf d] :=
    List.map_append
  have first := find?_bodies t d.name
  rw [add]
  simp only [new, defined]
  rw [enter]
  change _ = if t.bodies.find? (·.definition == d.name) = some (bodyOf d) then _ else _
  cases found : t.ofDefinition? d.name with
  | none =>
    rw [found] at first
    rw [first, if_neg (by simp)]
    exact created d.name
  | some type =>
    have named : type.definitionName = d.name := by simpa using List.find?_some found
    rw [found] at first
    rw [first]
    simp only [Option.map_some, Option.some.injEq, DataType.body_eq_bodyOf_iff named,
      DataType.Holds]
    split
    · rfl
    · exact created m.name

/-- The bodies of the table come about by entering those of the definitions that count. -/
theorem bodies_foldl {before : List Message} (h : t.Represents before) (more : List Message) :
    (more.foldl add t).bodies =
      ((countedDefinitions before more).map bodyOf).foldl enter t.bodies := by
  induction more generalizing t before with
  | nil => rfl
  | cons m more ih =>
    rw [List.foldl_cons, ih (h.add m), countedDefinitions, List.map_append, List.foldl_append]
    congr 1
    cases first : firstDefinition? before m.name with
    | some d =>
      obtain ⟨type, -, known, -⟩ := h.lookup_some m.name d first
      rw [add_of_passed (.inr (by simp [known]))]
      rfl
    | none =>
      cases defined : m.definition? with
      | none =>
        rw [add_of_passed (.inl defined)]
        rfl
      | some d =>
        rw [bodies_add defined (h.lookup_none m.name first)]
        rfl

end MessageTable

namespace Model

/-- The bodies of the messages of a document, one for each message name with a definition. -/
def messageBodies (doc : Document) : List Body := (countedDefinitions [] doc.messages).map bodyOf

/-- The body that comes first under its definition name has one data type, any other one has one for
each message with it. -/
theorem count_body_dataTypes (doc : Document) (b : Body) :
    ((ofDocument doc).dataTypes.map DataType.body).count b =
      if (messageBodies doc).find? (·.definition == b.definition) = some b then 1
      else (messageBodies doc).count b := by
  have run := MessageTable.bodies_foldl MessageTable.represents_empty doc.messages
  rw [← count_foldl_enter, messageBodies]
  exact congrArg (List.count b) run

/-- The bodies of a document are those of the definitions that its messages stand for. -/
theorem mem_messageBodies {doc : Document} {b : Body} : b ∈ messageBodies doc ↔
    ∃ name d, firstDefinition? doc.messages name = some d ∧ bodyOf d = b := by
  have nothing (name : String) : firstDefinition? [] name = none := rfl
  simp only [messageBodies, List.mem_map, mem_countedDefinitions_iff, nothing, true_and]
  constructor
  · intro counted
    obtain ⟨d, ⟨name, found⟩, same⟩ := counted
    exact ⟨name, d, found, same⟩
  · intro counted
    obtain ⟨name, d, found, same⟩ := counted
    exact ⟨d, ⟨name, found⟩, same⟩

/-- The bodies of the data types are those of the messages, and no two data types have the same body
just if only such bodies are repeated that come first under their definition name. -/
theorem dataTypes_distinct_iff (doc : Document) :
    (∀ b, b ∈ (ofDocument doc).dataTypes.map DataType.body ↔
      ∃ name d, firstDefinition? doc.messages name = some d ∧ bodyOf d = b) ∧
    ((ofDocument doc).dataTypes.Pairwise (fun type other => ¬ type.SameBody other) ↔
      ∀ b, 2 ≤ (messageBodies doc).count b →
        (messageBodies doc).find? (·.definition == b.definition) = some b) := by
  constructor
  · intro b
    rw [← mem_messageBodies, ← List.count_pos_iff, count_body_dataTypes, ← List.count_pos_iff]
    split
    · rename_i first
      have member := List.mem_of_find?_eq_some first
      simp [member]
    · rfl
  · have distinct : (ofDocument doc).dataTypes.Pairwise (fun type other => ¬ type.SameBody other) ↔
        ((ofDocument doc).dataTypes.map DataType.body).Nodup := by
      simp only [List.Nodup, List.pairwise_map, ne_eq, DataType.body_eq_iff]
    -- Both sides speak of one body at a time, and its count is known.
    rw [distinct, List.nodup_iff_count_le_one]
    refine forall_congr' fun b => ?_
    rw [count_body_dataTypes]
    split
    · rename_i first
      simp [first]
    · rename_i other
      simp only [other, imp_false]
      omega

/-- A message with a body that has an opcode alone. -/
def bare (name : String) (opcode : Opcode) : Message :=
  ⟨name, .parsed ⟨"transfer", opcode, [], "Body"⟩⟩

/-- Three messages under one definition name. The last two say the same. -/
def repeated : Document where
  interfaces := []
  getMethods := []
  messages := [bare "send" ⟨"d4", by decide, by decide, by decide⟩,
    bare "refund" ⟨"e6", by decide, by decide, by decide⟩,
    bare "forward" ⟨"e6", by decide, by decide, by decide⟩]

/-- The body that comes second under its name has two data types. -/
theorem dataTypes_repeated :
    (ofDocument repeated).dataTypes.map (fun type => (type.typeName, type.opcode.digits)) =
        [("Transfer", "d4"), ("Refund", "e6"), ("Forward", "e6")] ∧
      ¬ (ofDocument repeated).dataTypes.Pairwise (fun type other => ¬ type.SameBody other) := by
  decide +kernel

end Model

end Binding

end ContractAbi
