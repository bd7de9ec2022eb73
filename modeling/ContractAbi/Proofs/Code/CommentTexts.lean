import ContractAbi.Proofs.Code.Renaming
import ContractAbi.Proofs.Inheritance.Ancestors

/-!
# Where the texts of comments come from

Generated code shows texts as they are in its comments alone. All of these are texts of the
description (`Model.commentNames_subset`, `Model.commentTexts_subset`).
-/

namespace ContractAbi

/-! ### The texts of a description -/

def Interface.strings (i : Interface) : List String :=
  i.name :: i.parent.toList ++ i.fingerprint.toList ++ i.getMethods ++ i.inbound ++ i.outbound

def Parameter.strings (p : Parameter) : List String := p.category.toList ++ [p.name, p.rawType]

def GetMethod.strings (g : GetMethod) : List String :=
  g.name :: (g.inputs ++ g.outputs).flatMap Parameter.strings

def Definition.strings (d : Definition) : List String :=
  [d.name, d.opcode.digits, d.returnType] ++ d.params.flatMap Parameter.strings

def Message.strings (m : Message) : List String :=
  m.name ::
    match m.body with
    | .parsed d => d.strings
    | .malformed text reason => [text, reason]

/-- All texts that a document holds. -/
def Document.strings (doc : Document) : List String :=
  doc.interfaces.flatMap Interface.strings ++ doc.getMethods.flatMap GetMethod.strings ++
    doc.messages.flatMap Message.strings

namespace Document

variable {doc : Document} {name : String}

theorem mem_strings_of_interface {i : Interface} (listed : i ∈ doc.interfaces)
    (member : name ∈ i.strings) : name ∈ doc.strings :=
  List.mem_append_left _ (List.mem_append_left _ (List.mem_flatMap_of_mem listed member))

theorem mem_strings_of_message {m : Message} (listed : m ∈ doc.messages)
    (member : name ∈ m.strings) : name ∈ doc.strings :=
  List.mem_append_right _ (List.mem_flatMap_of_mem listed member)

theorem mem_strings_of_interfaceNames (declared : name ∈ doc.interfaceNames) :
    name ∈ doc.strings := by
  obtain ⟨i, listed, rfl⟩ := List.mem_map.mp declared
  exact mem_strings_of_interface listed List.mem_cons_self

theorem mem_strings_of_getMethod? {g : GetMethod} (found : doc.getMethod? name = some g) :
    name ∈ doc.strings := by
  have own : g.name = name := name_of_getMethod? name g found
  have inside : name ∈ g.strings := own ▸ List.mem_cons_self
  exact List.mem_append_left _ (List.mem_append_right _
    (List.mem_flatMap_of_mem (List.mem_of_find?_eq_some found) inside))

theorem mem_strings_of_definition? {d : Definition} (found : doc.definition? name = some d) :
    name ∈ doc.strings := by
  obtain ⟨m, first, -⟩ := Option.bind_eq_some_iff.mp found
  have own : m.name = name := by simpa using List.find?_some first
  exact mem_strings_of_message (List.mem_of_find?_eq_some first) (own ▸ List.mem_cons_self)

end Document

/-- The ancestors of a declared interface are declared. -/
theorem Graph.mem_interfaceNames_of_mem_lineage {doc : Document} {name ancestor : String}
    (declared : name ∈ doc.interfaceNames) (member : ancestor ∈ (ofDocument doc).lineage name) :
    ancestor ∈ doc.interfaceNames := by
  rw [lineage_ofDocument declared] at member
  obtain ⟨k, at'⟩ := List.mem_iff_getElem?.mp member
  rw [Inheritance.getElem?_lineageWithin] at at'
  split at at'
  · cases k with
    | zero =>
      cases at'
      exact declared
    | succ k => exact (mem_interfaceNames_of_ancestor? at').2
  · cases at'

namespace Binding

/-- The texts that stand in the comments of a data type. -/
def DataType.commentTexts (d : DataType) : List String :=
  [d.definitionName, d.opcode.digits, d.returnType]

namespace MessageTable

/-- A data type that a message adds shows the definition of the message in its comments. -/
theorem mem_dataTypes_add {t : MessageTable} {m : Message} {type : DataType}
    (member : type ∈ (t.add m).dataTypes) : type ∈ t.dataTypes ∨
      ∃ d, m.body = .parsed d ∧ type.commentTexts = [d.name, d.opcode.digits, d.returnType] := by
  have created {base : String} {d : Definition} (defined : m.definition? = some d)
      (member : type ∈ (t.create m.name base d).dataTypes) : type ∈ t.dataTypes ∨
        ∃ d, m.body = .parsed d ∧ type.commentTexts = [d.name, d.opcode.digits, d.returnType] := by
    rcases List.mem_append.mp member with old | new
    · exact .inl old
    · refine .inr ⟨d, ?_, by rw [List.mem_singleton.mp new]; rfl⟩
      unfold Message.definition? at defined
      split at defined
      · next parsed =>
        cases defined
        exact parsed
      · cases defined
  unfold add at member
  split at member
  · next d _ defined =>
    split at member
    · split at member
      · exact .inl member
      · exact created defined member
    · exact created defined member
  · exact .inl member

/-- The comments of a data type are texts of a message that has its body. -/
theorem exists_message_of_mem {messages : List Message} {type : DataType}
    (member : type ∈ (ofMessages messages).dataTypes) : ∃ m ∈ messages,
      ∃ d, m.body = .parsed d ∧ type.commentTexts = [d.name, d.opcode.digits, d.returnType] := by
  refine List.foldlRecOn messages add (motive := fun t => ∀ type ∈ t.dataTypes, ∃ m ∈ messages,
    ∃ d, m.body = .parsed d ∧ type.commentTexts = [d.name, d.opcode.digits, d.returnType])
    ?none ?one type member
  case none => exact List.forall_mem_nil _
  case one =>
    intro t known m among type listed
    rcases mem_dataTypes_add listed with old | new
    · exact known type old
    · exact ⟨m, among, new⟩

end MessageTable

namespace Model

variable {doc : Document}

/-- What stands in the comments of the message bodies has been written in the description. -/
theorem commentTexts_subset {type : DataType} (member : type ∈ (ofDocument doc).dataTypes) :
    type.commentTexts ⊆ doc.strings := by
  obtain ⟨m, among, d, parsed, texts⟩ := MessageTable.exists_message_of_mem member
  rw [texts]
  intro text listed
  refine Document.mem_strings_of_message among (List.mem_cons_of_mem _ ?_)
  rw [parsed]
  exact List.mem_append_left _ listed

/-- What stands in the comments of a class has been written in the description. -/
theorem commentNames_subset {c : Class} (member : c ∈ (ofDocument doc).classes) :
    c.commentNames ⊆ doc.strings := by
  have declared := mem_interfaceNames_of_mem member
  obtain ⟨members, found⟩ := exists_members member
  obtain ⟨i, interface, names, made⟩ := exists_of_mem_mapM member
  intro name listed
  simp only [Class.commentNames, List.mem_append, List.mem_cons, List.mem_map, or_assoc] at listed
  -- The name, its ancestors, the fingerprint, outbound messages, methods, and messages, in turn.
  rcases listed with rfl | ancestor | fingerprint | outbound | ⟨q, listed, rfl⟩ | ⟨s, sent, rfl⟩
  · exact Document.mem_strings_of_interfaceNames declared
  · have lineage : c.lineage = (Graph.ofDocument doc).lineage c.interface := by
      rw [made]
      rfl
    rw [lineage] at ancestor
    exact Document.mem_strings_of_interfaceNames
      (Graph.mem_interfaceNames_of_mem_lineage declared (List.mem_of_mem_tail ancestor))
  · have own : c.fingerprint = i.fingerprint := by
      rw [made]
      rfl
    obtain ⟨_, -, first⟩ := List.mem_filterMap.mp interface
    rw [own] at fingerprint
    refine Document.mem_strings_of_interface (List.mem_of_find?_eq_some first) ?_
    simp [Interface.strings, Option.mem_toList.mp fingerprint]
  · have own : c.outbound = members.outbound := by
      have known : ((Graph.ofDocument doc).members? c.interface).getD .empty = members := by
        rw [found]
        rfl
      rw [← known, made]
      rfl
    rw [own] at outbound
    obtain ⟨d, defined⟩ := Option.isSome_iff_exists.mp
      (Graph.resolves_of_mem declared found .outbound outbound)
    exact Document.mem_strings_of_definition? defined
  · obtain ⟨g, found, -⟩ := exists_getMethod member listed
    exact Document.mem_strings_of_getMethod? found
  · obtain ⟨d, found, -⟩ := exists_definition_of_mem member sent
    exact Document.mem_strings_of_definition? found

end Model

end Binding

end ContractAbi
