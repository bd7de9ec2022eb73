import ContractAbi.Binding.Messages
import ContractAbi.Proofs.Inheritance.Declared
import ContractAbi.Proofs.Naming.Namer

/-!
# The data types of messages

`MessageTable.ofMessages` goes through the messages one by one. `Represents` is what the table
keeps: a message name has a data type as soon as one message of that name has a definition, and its
data type says what the first of these definitions says; each data type has a name of its own. This
holds whether a data type is shared, is named after its definition or is named after its message.
-/

namespace ContractAbi

namespace Document

/-- The first definition that one of the messages of a name has. -/
def firstDefinition? (messages : List Message) (name : String) : Option Definition :=
  (messages.filter (·.name == name)).findSome? Message.definition?

/-- A message at the end counts only if no other has its name. -/
theorem firstDefinition?_concat (messages : List Message) (m : Message) (name : String) :
    firstDefinition? (messages ++ [m]) name =
      (firstDefinition? messages name).or (if m.name = name then m.definition? else none) := by
  rw [firstDefinition?, List.filter_append, List.findSome?_append, ← firstDefinition?]
  by_cases same : m.name = name <;> simp [same]

/-- Where the first message of a name has a definition, that is the first definition. -/
theorem firstDefinition?_of_definition? {doc : Document} {name : String} {d : Definition}
    (found : doc.definition? name = some d) : firstDefinition? doc.messages name = some d := by
  obtain ⟨m, first, defined⟩ := Option.bind_eq_some_iff.mp found
  rw [message?, ← List.head?_filter] at first
  obtain ⟨rest, listed⟩ := List.head?_eq_some_iff.mp first
  rw [firstDefinition?, listed, List.findSome?_cons, defined]

end Document

namespace Binding

open Document (firstDefinition? firstDefinition?_concat)

/-- A data type says what a definition says of a body. -/
def DataType.Holds (type : DataType) (d : Definition) : Prop :=
  type.opcode.same d.opcode = true ∧ type.fields = bodyFields d

namespace MessageTable

variable {t u : MessageTable} {messages : List Message} {m : Message} {type : DataType}

/-- What the table of messages keeps. -/
structure Represents (t : MessageTable) (messages : List Message) : Prop where
  lookup_none : ∀ name, firstDefinition? messages name = none → t.lookup name = none
  lookup_some : ∀ name d, firstDefinition? messages name = some d →
    ∃ type ∈ t.dataTypes, t.lookup name = some type ∧ type.Holds d
  distinct : (t.dataTypes.map (·.typeName)).Nodup
  claimed : ∀ type ∈ t.dataTypes, type.typeName ∈ t.namer.taken

theorem represents_empty : empty.Represents [] where
  lookup_none _ _ := rfl
  lookup_some := by
    intro name d found
    cases found
  distinct := .nil
  claimed := by
    intro type member
    cases member

/-- An entry at the end is found only if no other has its name. -/
theorem lookup_concat (entries : t.entries = u.entries ++ [(m.name, type)]) (name : String) :
    t.lookup name = (u.lookup name).or (if m.name = name then some type else none) := by
  rw [lookup, entries, List.find?_append, lookup]
  cases u.entries.find? (·.1 == name) with
  | some entry => rfl
  | none => by_cases same : m.name = name <;> simp [same]

namespace Represents

/-- A message that adds nothing has no definition, or is not the first of its name with one. -/
theorem skip (h : t.Represents messages)
    (known : m.definition? = none ∨ t.lookup m.name ≠ none) : t.Represents (messages ++ [m]) := by
  have same : ∀ name, firstDefinition? (messages ++ [m]) name = firstDefinition? messages name := by
    intro name
    rw [firstDefinition?_concat]
    rcases known with undefined | found
    · simp [undefined]
    · by_cases this : m.name = name
      · cases first : firstDefinition? messages name with
        | some d => rfl
        | none => exact absurd (h.lookup_none m.name (this ▸ first)) found
      · simp [this]
  constructor
  · intro name missing
    exact h.lookup_none name (same name ▸ missing)
  · intro name d found
    exact h.lookup_some name d (same name ▸ found)
  · exact h.distinct
  · exact h.claimed

/-- The first message of its name with a definition is entered with a data type that holds it. -/
theorem enter (h : u.Represents messages) {d : Definition} (defined : m.definition? = some d)
    (new : u.lookup m.name = none) (entries : t.entries = u.entries ++ [(m.name, type)])
    (kept : u.dataTypes ⊆ t.dataTypes) (listed : type ∈ t.dataTypes) (holds : type.Holds d)
    (distinct : (t.dataTypes.map (·.typeName)).Nodup)
    (claimed : ∀ type ∈ t.dataTypes, type.typeName ∈ t.namer.taken) :
    t.Represents (messages ++ [m]) := by
  have first : firstDefinition? messages m.name = none := by
    cases found : firstDefinition? messages m.name with
    | none => rfl
    | some e =>
      obtain ⟨other, -, known, -⟩ := h.lookup_some m.name e found
      rw [new] at known
      cases known
  refine ⟨?_, ?_, distinct, claimed⟩
  -- Nothing changes for the other names; for the name of the message its own definition is first.
  · intro name missing
    rw [firstDefinition?_concat, Option.or_eq_none_iff] at missing
    rw [lookup_concat entries, h.lookup_none name missing.1, Option.none_or, if_neg]
    intro same
    rw [if_pos same, defined] at missing
    cases missing.2
  · intro name e found
    rw [firstDefinition?_concat] at found
    by_cases same : m.name = name
    · rw [← same, first, Option.none_or, if_pos rfl, defined] at found
      cases found
      refine ⟨type, listed, ?_, holds⟩
      rw [lookup_concat entries, ← same, new, Option.none_or, if_pos rfl]
    · rw [if_neg same, Option.or_none] at found
      obtain ⟨other, member, known, body⟩ := h.lookup_some name e found
      refine ⟨other, kept member, ?_, body⟩
      rw [lookup_concat entries, known, Option.some_or]

/-- A new data type gets a name that no other one has. -/
theorem create (h : t.Represents messages) {d : Definition} (defined : m.definition? = some d)
    (new : t.lookup m.name = none) (base : String) :
    (t.create m.name base d).Represents (messages ++ [m]) := by
  have free := t.namer.choose_notMem (Naming.typeName base)
  apply h.enter defined new (t := t.create m.name base d) rfl
  · exact List.subset_append_left ..
  · exact List.mem_append_right _ (List.mem_singleton_self _)
  · exact ⟨d.opcode.same_refl, rfl⟩
  · -- Every name in use was claimed, and a claim gives none of those.
    have unused : t.namer.choose (Naming.typeName base) ∉ t.dataTypes.map (·.typeName) := by
      intro member
      obtain ⟨type, listed, same⟩ := List.mem_map.mp member
      exact free (same ▸ h.claimed type listed)
    have names : (t.create m.name base d).dataTypes.map (·.typeName) =
        (t.dataTypes.map (·.typeName)).concat (t.namer.choose (Naming.typeName base)) := by
      rw [List.concat_eq_append]
      exact List.map_append
    rw [names]
    exact h.distinct.concat unused
  · intro type member
    rcases List.mem_append.mp member with old | new
    · exact List.mem_cons_of_mem _ (h.claimed type old)
    · rw [List.mem_singleton.mp new]
      exact List.mem_cons_self

/-- A message that is added to both sides keeps them in step. -/
theorem add (h : t.Represents messages) (m : Message) :
    (t.add m).Represents (messages ++ [m]) := by
  unfold MessageTable.add
  split
  · rename_i d new defined
    split
    · rename_i type found
      split
      · rename_i shared
        exact h.enter defined new rfl (List.Subset.refl _) (List.mem_of_find?_eq_some found) shared
          h.distinct h.claimed
      · exact h.create defined new m.name
    · exact h.create defined new d.name
  · rename_i other
    apply h.skip
    cases defined : m.definition? with
    | none => exact Or.inl rfl
    | some d => exact Or.inr fun new => other d new defined

theorem foldl (h : t.Represents messages) (more : List Message) :
    (more.foldl MessageTable.add t).Represents (messages ++ more) := by
  induction more generalizing t messages with
  | nil => simpa using h
  | cons m more ih => simpa using ih (h.add m)

end Represents

/-- The table of messages has for each name what the first of them declares. -/
theorem represents_ofMessages (messages : List Message) :
    (ofMessages messages).Represents messages :=
  represents_empty.foldl messages

end MessageTable

end Binding

end ContractAbi
