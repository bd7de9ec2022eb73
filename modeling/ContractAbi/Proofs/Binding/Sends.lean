import ContractAbi.Proofs.Binding.Classes
import ContractAbi.Proofs.Binding.DataTypes

/-!
# The sends of a model

Where the sends of a class come from: they stand for the inbound members of the interface, in order
(`Model.messages_sends`), so that a message names one send of its class at most. The body of a send
holds the definition that its message has (`Model.exists_definition_of_mem`), so that the categories
of its fields are read from the texts of types.
-/

namespace ContractAbi

namespace Binding

/-- The members of a list that have a data type, with it. -/
def bodiesOf (doc : Document) (messages : List String) : List (String × DataType) :=
  messages.filterMap fun m => ((MessageTable.ofMessages doc.messages).lookup m).map (m, ·)

/-- The sends of a class are those of its messages that have a definition, in their order. -/
theorem map_sends_membersOf (doc : Document) (members : Members) (scope : Scope) :
    (((membersOf doc (MessageTable.ofMessages doc.messages) members).run scope).1.2.map fun s =>
      (s.message, s.body)) = bodiesOf doc members.inbound := by
  have each := map_mapM (f := fun (entry : String × DataType) => sendOf entry.1 entry.2)
    (g := fun s => (s.message, s.body)) (h := id) fun _ _ => rfl
  rw [← List.map_id (bodiesOf doc members.inbound)]
  exact each _ _

namespace Model

variable {doc : Document} {c : Class}

/-- A message whose first record has a definition has a data type that holds it. -/
theorem exists_lookup {message : String} {d : Definition}
    (found : doc.definition? message = some d) : ∃ type ∈ (ofDocument doc).dataTypes,
      (MessageTable.ofMessages doc.messages).lookup message = some type ∧ type.Holds d :=
  (MessageTable.represents_ofMessages doc.messages).lookup_some message d
    (Document.firstDefinition?_of_definition? found)

/-- The data types of a document have different names. -/
theorem nodup_typeNames (doc : Document) :
    ((ofDocument doc).dataTypes.map (·.typeName)).Nodup :=
  (MessageTable.represents_ofMessages doc.messages).distinct

section

variable (member : c ∈ (ofDocument doc).classes) {members : Members}
  (found : (Graph.ofDocument doc).members? c.interface = some members)

include member found

/-- A message among the members has a definition. -/
theorem exists_definition_of_inbound {message : String} (inbound : message ∈ members.inbound) :
    ∃ d, doc.definition? message = some d :=
  Option.isSome_iff_exists.mp
    (Graph.resolves_of_mem (mem_interfaceNames_of_mem member) found .inbound inbound)

/-- What the sends of a class carry is looked up for the messages among its members. -/
theorem bodies_sends :
    (c.sends.map fun s => (s.message, s.body)) = bodiesOf doc members.inbound := by
  obtain ⟨scope, parts⟩ := exists_membersOf member found
  rw [show c.sends = _ from congrArg Prod.snd parts]
  exact map_sends_membersOf doc members scope

/-- The sends stand for the inbound messages among the members, in order. -/
theorem messages_sends : c.sends.map (·.message) = members.inbound := by
  have messages := congrArg (List.map Prod.fst) (bodies_sends member found)
  rw [List.map_map] at messages
  refine Eq.trans messages (map_filterMap_of_isSome ?_ ?_)
  · intro message entry known
    obtain ⟨body, -, rfl⟩ := Option.map_eq_some_iff.mp known
    rfl
  · intro message inbound
    obtain ⟨d, defined⟩ := exists_definition_of_inbound member found inbound
    obtain ⟨type, -, known, -⟩ := exists_lookup defined
    rw [known]
    rfl

end

/-- No class has two sends of one message. -/
theorem nodup_messages (member : c ∈ (ofDocument doc).classes) :
    (c.sends.map (·.message)).Nodup := by
  obtain ⟨members, found⟩ := exists_members member
  rw [messages_sends member found]
  exact Graph.nodup_members (mem_interfaceNames_of_mem member) found .inbound

/-- A send of a class is found by the name of its message. -/
theorem send?_of_mem (member : c ∈ (ofDocument doc).classes) {s : Send} (sent : s ∈ c.sends) :
    c.send? s.message = some s :=
  find?_key_of_mem (nodup_messages member) sent

/-- The body of a send is a data type of the model, and holds the definition of the message. -/
theorem exists_definition_of_mem (member : c ∈ (ofDocument doc).classes) {s : Send}
    (sent : s ∈ c.sends) : ∃ d, doc.definition? s.message = some d ∧
      s.body ∈ (ofDocument doc).dataTypes ∧ s.body.Holds d := by
  obtain ⟨members, found⟩ := exists_members member
  have inbound : s.message ∈ members.inbound := by
    rw [← messages_sends member found]
    exact List.mem_map_of_mem sent
  have listed : (s.message, s.body) ∈ bodiesOf doc members.inbound := by
    rw [← bodies_sends member found]
    exact List.mem_map_of_mem sent
  obtain ⟨d, defined⟩ := exists_definition_of_inbound member found inbound
  obtain ⟨type, inTypes, known, holds⟩ := exists_lookup defined
  obtain ⟨message, -, entry⟩ := List.mem_filterMap.mp listed
  obtain ⟨body, looked, same⟩ := Option.map_eq_some_iff.mp entry
  cases same
  rw [known] at looked
  cases looked
  exact ⟨d, defined, inTypes, holds⟩

/-- Every send has a body with the fields of some definition. -/
theorem exists_bodyFields (member : c ∈ (ofDocument doc).classes) {s : Send} (sent : s ∈ c.sends) :
    ∃ d, s.body.fields = bodyFields d := by
  obtain ⟨d, -, -, -, fields⟩ := exists_definition_of_mem member sent
  exact ⟨d, fields⟩

/-- An inbound message of a class has one send. Its opcode and its fields are those of the
definition that the message has, whatever other messages are called, and its body is the only data
type of its name in the model. -/
theorem exists_send_of_inbound (member : c ∈ (ofDocument doc).classes) {members : Members}
    (found : (Graph.ofDocument doc).members? c.interface = some members) {message : String}
    (inbound : message ∈ members.inbound) :
    ∃ d s, doc.definition? message = some d ∧ c.sends.filter (·.message == message) = [s] ∧
      s.body.opcode.same d.opcode = true ∧ s.body.fields = bodyFields d ∧
      (ofDocument doc).dataTypes.filter (·.typeName == s.body.typeName) = [s.body] := by
  rw [← messages_sends member found] at inbound
  obtain ⟨s, sent, rfl⟩ := List.mem_map.mp inbound
  obtain ⟨d, defined, inTypes, opcode, fields⟩ := exists_definition_of_mem member sent
  refine ⟨d, s, defined, ?_, opcode, fields, ?_⟩
  · exact filter_key_of_mem (nodup_messages member) sent
  · exact filter_key_of_mem (nodup_typeNames doc) inTypes

/-- A description in which `go` is declared twice, `again` has the body of `go` with its opcode in
capitals, and the message `transfer` has another body under the name of the same definition. -/
def reusing : Document where
  interfaces := [⟨"item", none, none, [], ["go", "again", "transfer"], []⟩]
  getMethods := []
  messages :=
    [⟨"go", .parsed ⟨"transfer", ⟨"5e", by decide, by decide, by decide⟩, [], "Body"⟩⟩,
      ⟨"go", .parsed ⟨"other", ⟨"2b", by decide, by decide, by decide⟩, [], "Body"⟩⟩,
      ⟨"again", .parsed ⟨"transfer", ⟨"5E", by decide, by decide, by decide⟩, [], "Body"⟩⟩,
      ⟨"transfer", .parsed ⟨"transfer", ⟨"3c", by decide, by decide, by decide⟩, [], "Body"⟩⟩]

/-- A message whose definition has the name of another one has a data type of its own. -/
theorem exists_send_of_inbound_reusing :
    ∃ c members, c ∈ (ofDocument reusing).classes ∧
      (Graph.ofDocument reusing).members? c.interface = some members ∧
      "transfer" ∈ members.inbound ∧
      ∃ d s, reusing.definition? "transfer" = some d ∧
        c.sends.filter (·.message == "transfer") = [s] ∧ s.body.opcode.same d.opcode = true ∧
        s.body.fields = bodyFields d ∧ s.body.typeName = "Transfer_2" ∧
        (ofDocument reusing).dataTypes.filter (·.typeName == s.body.typeName) = [s.body] := by
  have one : (ofDocument reusing).classes.length = 1 := by decide +kernel
  obtain ⟨c, single⟩ := List.length_eq_one_iff.mp one
  have member : c ∈ (ofDocument reusing).classes := single ▸ List.mem_singleton_self c
  have interface : (ofDocument reusing).classes.map (·.interface) = ["item"] := by decide +kernel
  have names : (ofDocument reusing).classes.flatMap (fun c =>
      (c.sends.filter (·.message == "transfer")).map (·.body.typeName)) = ["Transfer_2"] := by
    decide +kernel
  rw [single, List.map_singleton] at interface
  have found : (Graph.ofDocument reusing).members? c.interface =
      some ⟨[], ["go", "again", "transfer"], []⟩ := by
    rw [List.singleton_inj.mp interface]
    decide +kernel
  have inbound : "transfer" ∈ ["go", "again", "transfer"] := by decide
  obtain ⟨d, s, defined, only, opcode, fields, type⟩ := exists_send_of_inbound member found inbound
  rw [single, List.flatMap_singleton, only, List.map_singleton] at names
  exact ⟨c, _, member, found, inbound, d, s, defined, only, opcode, fields,
    List.singleton_inj.mp names, type⟩

end Model

end Binding

end ContractAbi
