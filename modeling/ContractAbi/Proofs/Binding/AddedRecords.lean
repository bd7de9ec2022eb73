import ContractAbi.Proofs.Binding.Alike
import ContractAbi.Proofs.Binding.DataTypes
import ContractAbi.Proofs.Schema.Lint

/-!
# Records that change nothing

A description is a list of records, and a document has them list by list. Two kinds of records may
be added anywhere without an effect on what is resolved and generated. Behind a record of its list
and name a record is shadowed (`Model.ofRecords_insert_repeat`), but for one case: a message with a
definition behind malformed messages of its name gets a data type, although no look-up by name finds
it (`Model.dataTypes_revived`). A malformed message of a name of its own is as good as not there
(`Model.ofRecords_insert_malformed`).
-/

namespace ContractAbi

namespace Record

/-- The definition of a message record, if its text was one. -/
def definition? : Record → Option Definition
  | .message m => m.definition?
  | _ => none

end Record

section Insertion

variable {α : Type} {key : α → String} {front : List α} {x : α}

/-- An entry behind another one of its key is not found. -/
theorem find?_insert_of_mem (known : key x ∈ front.map key) (back : List α) (name : String) :
    (front ++ x :: back).find? (key · == name) = (front ++ back).find? (key · == name) := by
  rw [List.find?_append, List.find?_append]
  by_cases same : key x = name
  · have first : (front.find? (key · == name)).isSome = true :=
      isSome_find?_key.mpr (same ▸ known)
    rw [Option.or_of_isSome first, Option.or_of_isSome first]
  · rw [List.find?_cons_of_neg (by simpa using same)]

/-- An entry does not matter to the other keys. -/
theorem find?_insert_of_ne {name : String} (other : key x ≠ name) (back : List α) :
    (front ++ x :: back).find? (key · == name) = (front ++ back).find? (key · == name) := by
  rw [List.find?_append, List.find?_append, List.find?_cons_of_neg (by simpa using other)]

end Insertion

namespace Inheritance

/-- An interface behind one of its name does not count. -/
theorem firstDeclared_insert_of_mem {i : Interface} {front : List Interface}
    (seen : List String) (known : i.name ∈ seen ∨ i.name ∈ front.map (·.name))
    (back : List Interface) :
    firstDeclared seen (front ++ i :: back) = firstDeclared seen (front ++ back) := by
  induction front generalizing seen with
  | nil =>
    have inSeen : i.name ∈ seen := known.resolve_right List.not_mem_nil
    rw [List.nil_append, firstDeclared, if_pos inSeen, List.nil_append]
  | cons j front ih =>
    rw [List.map_cons, List.mem_cons] at known
    rw [List.cons_append, List.cons_append, firstDeclared, firstDeclared]
    by_cases repeated : j.name ∈ seen
    · rw [if_pos repeated, if_pos repeated]
      refine ih seen ?_
      rcases known with inSeen | same | later
      · exact Or.inl inSeen
      · exact Or.inl (same ▸ repeated)
      · exact Or.inr later
    · rw [if_neg repeated, if_neg repeated, ih (j.name :: seen)]
      rcases known with inSeen | same | later
      · exact Or.inl (List.mem_cons_of_mem _ inSeen)
      · exact Or.inl (same ▸ List.mem_cons_self)
      · exact Or.inr later

end Inheritance

/-- There is always another opcode. -/
theorem Opcode.exists_not_same (a : Opcode) : ∃ b : Opcode, a.same b = false := by
  by_cases zero : a.same ⟨"0", by decide, by decide, by decide⟩ = true
  · refine ⟨⟨"1", by decide, by decide, by decide⟩, Bool.eq_false_iff.mpr fun one => ?_⟩
    have both := same_trans ((same_comm ..).trans zero) one
    exact absurd both (by decide)
  · exact ⟨_, Bool.eq_false_iff.mpr zero⟩

namespace Document

open Inheritance

/-- The names of a kind are those of its records. -/
theorem mem_recordNames_ofRecords {rs : List Record} {kind : RecordKind} {name : String} :
    name ∈ (ofRecords rs).recordNames kind ↔ (kind, name) ∈ rs.map Record.key := by
  induction rs with
  | nil => cases kind <;> simp [ofRecords, recordNames]
  | cons r rs ih =>
    rw [List.map_cons, List.mem_cons, ← ih]
    cases r <;> cases kind <;> simp [ofRecords, recordNames, Record.key, Record.kind, Record.name,
      Record.interface?, Record.getMethod?, Record.message?, List.filterMap_cons]

/-- Records that are added come behind those of their kind. -/
theorem ofRecords_append (before after : List Record) :
    ofRecords (before ++ after) =
      ⟨(ofRecords before).interfaces ++ (ofRecords after).interfaces,
        (ofRecords before).getMethods ++ (ofRecords after).getMethods,
        (ofRecords before).messages ++ (ofRecords after).messages⟩ := by
  simp [ofRecords]

variable {before after : List Record} {r : Record}

/-- Definitions are looked up by looking up messages. -/
theorem definition?_of_message? {doc other : Document} (same : doc.message? = other.message?) :
    doc.definition? = other.definition? := by
  funext name
  rw [definition?, same]
  rfl

/-- Behind a record of its list and name a record is not looked at. -/
theorem readsAlike_insert_repeat (repeats : r.key ∈ before.map Record.key) (after : List Record) :
    (ofRecords (before ++ r :: after)).ReadsAlike (ofRecords (before ++ after)) ∧
      (ofRecords (before ++ r :: after)).message? = (ofRecords (before ++ after)).message? := by
  have known := mem_recordNames_ofRecords.mpr repeats
  rw [ofRecords_append, ofRecords_append before]
  cases r with
  | interface i =>
    have declared := firstDeclared_insert_of_mem [] (Or.inr known) (ofRecords after).interfaces
    exact ⟨⟨declared, rfl, rfl⟩, rfl⟩
  | getMethod g =>
    exact ⟨⟨rfl, funext (find?_insert_of_mem known _), rfl⟩, rfl⟩
  | message m =>
    have messages := funext (find?_insert_of_mem known (ofRecords after).messages)
    exact ⟨⟨rfl, rfl, definition?_of_message? messages⟩, messages⟩

/-- A malformed message whose name no other message has does not resolve, as if it were not there.
-/
theorem readsAlike_insert_malformed {m : Message} (undefined : m.definition? = none)
    (alone : (.message, m.name) ∉ (before ++ after).map Record.key) :
    (ofRecords (before ++ .message m :: after)).ReadsAlike (ofRecords (before ++ after)) := by
  have free : m.name ∉ (ofRecords (before ++ after)).messages.map (·.name) :=
    fun member => alone (mem_recordNames_ofRecords.mp member)
  rw [ofRecords_append] at free
  rw [ofRecords_append, ofRecords_append before]
  refine ⟨rfl, rfl, funext fun name => ?_⟩
  by_cases same : m.name = name
  · subst same
    have without : ((ofRecords before).messages ++ (ofRecords after).messages).find?
        (·.name == m.name) = none :=
      Option.not_isSome_iff_eq_none.mp fun found => free (isSome_find?_key.mp found)
    have inFront := (Option.or_eq_none_iff.mp (List.find?_append.symm.trans without)).1
    have first : ((ofRecords before).messages ++ m :: (ofRecords after).messages).find?
        (·.name == m.name) = some m := by
      rw [List.find?_append, inFront, Option.none_or, List.find?_cons_of_pos (by simp)]
    have found := congrArg (Option.bind · Message.definition?) first
    have missing := congrArg (Option.bind · Message.definition?) without
    exact found.trans (undefined.trans missing.symm)
  · exact congrArg (Option.bind · Message.definition?) (find?_insert_of_ne same _)

/-- Messages that are added come behind the other messages. -/
theorem messages_ofRecords_append (before : List Record) (messages : List Message) :
    (ofRecords (before ++ messages.map .message)).messages =
      (ofRecords before).messages ++ messages := by
  simp [ofRecords, List.filterMap_map, Function.comp_def, Record.message?]

end Document

namespace Binding

open Document (firstDefinition?)

namespace MessageTable

variable {t : MessageTable} {m : Message}

/-- A message is passed over if it has no definition or one of its name is in the table. -/
theorem add_of_passed (passed : m.definition? = none ∨ t.lookup m.name ≠ none) : t.add m = t := by
  unfold add
  split
  · rename_i new defined
    rcases passed with undefined | known
    · rw [defined] at undefined
      cases undefined
    · exact absurd new known
  · rfl

theorem ofMessages_append (front back : List Message) :
    ofMessages (front ++ back) = back.foldl add (ofMessages front) :=
  List.foldl_append

/-- A message that adds nothing where it stands can be left out. -/
theorem ofMessages_insert {front : List Message} (passed : (ofMessages front).add m = ofMessages front)
    (back : List Message) : ofMessages (front ++ m :: back) = ofMessages (front ++ back) := by
  rw [ofMessages_append, List.foldl_cons, passed, ← ofMessages_append]

/-- A message that is not passed over shares a data type that holds its definition, or gets one. -/
theorem add_of_new {d : Definition} (defined : m.definition? = some d)
    (new : t.lookup m.name = none) :
    (∃ type, t.ofDefinition? d.name = some type ∧ type.Holds d ∧
        t.add m = { t with entries := t.entries ++ [(m.name, type)] }) ∨
      ∃ base, t.add m = t.create m.name base d := by
  unfold add
  simp only [new, defined]
  split
  · rename_i type found
    split
    · rename_i holds
      exact Or.inl ⟨type, found, holds, rfl⟩
    · exact Or.inr ⟨m.name, rfl⟩
  · exact Or.inr ⟨d.name, rfl⟩

/-- A data type that is made shows in the table. -/
theorem dataTypes_create_ne (t : MessageTable) (message base : String) (d : Definition) :
    (t.create message base d).dataTypes ≠ t.dataTypes :=
  fun same => List.cons_ne_nil _ _ (List.append_right_eq_self.mp same)

/-- A message that is not passed over changes the data types of some continuation. If it gets a data
type, then at once; if it shares one, then the next message of its name, which says something else,
gets none. -/
theorem exists_dataTypes_ne {front : List Message} {d : Definition}
    (defined : m.definition? = some d) (new : (ofMessages front).lookup m.name = none) :
    ∃ back, (ofMessages (front ++ m :: back)).dataTypes ≠
      (ofMessages (front ++ back)).dataTypes := by
  rcases add_of_new defined new with ⟨type, found, holds, shared⟩ | ⟨base, created⟩
  · obtain ⟨o, different⟩ := type.opcode.exists_not_same
    let next : Message := ⟨m.name, .parsed { d with opcode := o }⟩
    have known : ((ofMessages front).add m).lookup next.name ≠ none := by
      rw [lookup_concat (by rw [shared]) next.name, if_pos rfl]
      cases (ofMessages front).lookup next.name <;> exact nofun
    refine ⟨[next], fun same => ?_⟩
    simp only [ofMessages_append, List.foldl_cons, List.foldl_nil] at same
    rw [add_of_passed (Or.inr known), shared] at same
    rcases add_of_new (m := next) rfl new with ⟨other, first, ⟨opcode, -⟩, -⟩ | ⟨base, created⟩
    · cases found.symm.trans first
      exact absurd opcode (Bool.eq_false_iff.mp different)
    · rw [created] at same
      exact dataTypes_create_ne _ _ _ _ same.symm
  · refine ⟨[], fun same => ?_⟩
    simp only [ofMessages_append, List.foldl_cons, List.foldl_nil] at same
    rw [created] at same
    exact dataTypes_create_ne _ _ _ _ same

/-- The table has no data type for a name exactly if no message of the name has a definition. -/
theorem lookup_eq_none_iff {messages : List Message} {name : String} :
    (ofMessages messages).lookup name = none ↔ firstDefinition? messages name = none := by
  have represents := represents_ofMessages messages
  constructor
  · intro missing
    cases found : firstDefinition? messages name with
    | none => rfl
    | some d =>
      obtain ⟨type, -, known, -⟩ := represents.lookup_some name d found
      rw [missing] at known
      cases known
  · exact represents.lookup_none name

end MessageTable

namespace Model

variable {before after : List Record} {r : Record} {m : Message}

/-- No message of the name has a definition. -/
theorem firstDefinition?_ofRecords_eq_none_iff {rs : List Record} {name : String} :
    firstDefinition? (Document.ofRecords rs).messages name = none ↔
      ∀ e ∈ rs, e.name = name → e.definition? = none := by
  rw [firstDefinition?, List.findSome?_eq_none_iff]
  constructor
  · intro undefined e listed named
    cases e with
    | interface | getMethod => rfl
    | message m =>
      have member : m ∈ (Document.ofRecords rs).messages :=
        List.mem_filterMap.mpr ⟨_, listed, rfl⟩
      exact undefined m (List.mem_filter.mpr ⟨member, beq_iff_eq.mpr named⟩)
  · intro undefined m found
    obtain ⟨member, named⟩ := List.mem_filter.mp found
    obtain ⟨e, listed, isMessage⟩ := List.mem_filterMap.mp member
    cases e with
    | interface | getMethod => cases isMessage
    | message n =>
      cases isMessage
      exact undefined _ listed (beq_iff_eq.mp named)

/-- A record that is passed over brings nothing to the table of messages. -/
theorem ofMessages_insert_record (before : List Record) (r : Record) (passed : r.definition? = none ∨
      ∃ e ∈ before, e.name = r.name ∧ e.definition?.isSome = true) (after : List Record) :
    MessageTable.ofMessages (Document.ofRecords (before ++ r :: after)).messages =
      MessageTable.ofMessages (Document.ofRecords (before ++ after)).messages := by
  rw [Document.ofRecords_append, Document.ofRecords_append before]
  cases r with
  | interface | getMethod => rfl
  | message m =>
    refine MessageTable.ofMessages_insert (MessageTable.add_of_passed (passed.imp_right ?_)) _
    rintro ⟨e, listed, named, defined⟩ new
    have undefined := firstDefinition?_ofRecords_eq_none_iff.mp
      (MessageTable.lookup_eq_none_iff.mp new) e listed named
    rw [undefined] at defined
    cases defined

/-- A record behind a record of its list and name changes neither the graph nor the order in which
interfaces are tried. It changes nothing in the model either, whatever records come behind it, if
and only if it brings no definition or an earlier message of its name has one. -/
theorem ofRecords_insert_repeat (repeats : r.key ∈ before.map Record.key) :
    (∀ after, Graph.ofDocument (.ofRecords (before ++ r :: after)) =
        Graph.ofDocument (.ofRecords (before ++ after)) ∧
      (ofDocument (.ofRecords (before ++ r :: after))).registration =
        (ofDocument (.ofRecords (before ++ after))).registration) ∧
    ((∀ after, ofDocument (.ofRecords (before ++ r :: after)) =
        ofDocument (.ofRecords (before ++ after))) ↔
      (r.definition? = none ∨ ∃ e ∈ before, e.name = r.name ∧ e.definition?.isSome = true)) := by
  have alike (after : List Record) := Document.readsAlike_insert_repeat repeats after
  have declared (after : List Record) (name : String) :=
    congrArg Option.isSome (congrFun (alike after).2 name)
  have graph (after : List Record) := (alike after).1.graph (declared after)
  refine ⟨fun after => ⟨graph after, congrArg Graph.reverseOrder (graph after)⟩, ?_, ?_⟩
  · intro same
    -- If the record counted, the data types would differ before some messages behind it.
    by_contra counts
    obtain ⟨defined, first⟩ := not_or.mp counts
    cases r with
    | interface | getMethod => exact defined rfl
    | message m =>
      obtain ⟨d, defined⟩ := Option.ne_none_iff_exists'.mp defined
      have undefined : ∀ e ∈ before, e.name = m.name → e.definition? = none := by
        intro e listed named
        rw [← Option.not_isSome_iff_eq_none]
        exact fun found => first ⟨e, listed, named, found⟩
      have new := MessageTable.lookup_eq_none_iff.mpr
        (firstDefinition?_ofRecords_eq_none_iff.mpr undefined)
      obtain ⟨back, different⟩ := MessageTable.exists_dataTypes_ne defined new
      rw [← Document.messages_ofRecords_append before (m :: back),
        ← Document.messages_ofRecords_append before back] at different
      exact different (congrArg Model.dataTypes (same (back.map .message)))
  · intro passed after
    exact (alike after).1.model (ofMessages_insert_record before r passed after) (declared after)

/-- An interface that references two messages. -/
def item : Record := .interface ⟨"item", none, none, [], ["go", "send"], []⟩

/-- A record of `go` that cannot be read. -/
def garbled : Message := ⟨"go", .malformed "?" "no opcode"⟩

/-- A message under a definition name that all of them share, told apart by its opcode. -/
def transfer (name : String) (opcode : Opcode) : Record :=
  .message ⟨name, .parsed ⟨"transfer", opcode, [], "Body"⟩⟩

/-- Another record of `go`, which can be read. -/
def goAgain : Record := transfer "go" ⟨"a1", by decide, by decide, by decide⟩

def sending : Record := transfer "send" ⟨"c3", by decide, by decide, by decide⟩

/-- A description in which the first record of `go` cannot be read and the second one can. -/
def readable : List Record :=
  [item, .message garbled, transfer "go" ⟨"b2", by decide, by decide, by decide⟩]

/-- A second declaration of a name, with a body of its own, behind a readable one. -/
theorem ofRecords_insert_repeat_readable :
    goAgain.key ∈ readable.map Record.key ∧ goAgain.definition? ≠ none ∧
    ∀ after, Graph.ofDocument (.ofRecords (readable ++ goAgain :: after)) =
        Graph.ofDocument (.ofRecords (readable ++ after)) ∧
      ofDocument (.ofRecords (readable ++ goAgain :: after)) =
        ofDocument (.ofRecords (readable ++ after)) := by
  have repeats : goAgain.key ∈ readable.map Record.key := by decide
  have defined : ∃ e ∈ readable, e.name = goAgain.name ∧ e.definition?.isSome = true := by decide
  obtain ⟨graph, model⟩ := ofRecords_insert_repeat repeats
  exact ⟨repeats, by decide, fun after => ⟨(graph after).1, model.mpr (Or.inr defined) after⟩⟩

/-- Behind a record that cannot be read the other record of `go` gets a data type that no class
uses, and with it the type name that `send` would have. -/
theorem dataTypes_revived :
    goAgain.key ∈ [item, .message garbled].map Record.key ∧
    (ofDocument (.ofRecords [item, .message garbled, sending])).dataTypes.map
        (fun type => (type.typeName, type.opcode.digits)) = [("Transfer", "c3")] ∧
    (ofDocument (.ofRecords [item, .message garbled, goAgain, sending])).dataTypes.map
        (fun type => (type.typeName, type.opcode.digits)) =
      [("Transfer", "a1"), ("Send", "c3")] ∧
    (ofDocument (.ofRecords [item, .message garbled, sending])).classes.flatMap
        (fun c => c.sends.map fun s => (s.message, s.body.typeName)) = [("send", "Transfer")] ∧
    (ofDocument (.ofRecords [item, .message garbled, goAgain, sending])).classes.flatMap
        (fun c => c.sends.map fun s => (s.message, s.body.typeName)) = [("send", "Send")] := by
  decide +kernel

/-- A malformed message of a name that no other message has changes nothing but the warnings: the
order of the interfaces, what the graph knows of each of them, the classes and the data types are
the same as without it. -/
theorem ofRecords_insert_malformed (malformed : m.isMalformed = true)
    (alone : (.message, m.name) ∉ (before ++ after).map Record.key) :
    (Graph.ofDocument (.ofRecords (before ++ .message m :: after))).order =
        (Graph.ofDocument (.ofRecords (before ++ after))).order ∧
      (Graph.ofDocument (.ofRecords (before ++ .message m :: after))).entries =
        (Graph.ofDocument (.ofRecords (before ++ after))).entries ∧
      (ofDocument (.ofRecords (before ++ .message m :: after))).classes =
        (ofDocument (.ofRecords (before ++ after))).classes ∧
      (ofDocument (.ofRecords (before ++ .message m :: after))).dataTypes =
        (ofDocument (.ofRecords (before ++ after))).dataTypes ∧
      (ofDocument (.ofRecords (before ++ .message m :: after))).registration =
        (ofDocument (.ofRecords (before ++ after))).registration := by
  have undefined : m.definition? = none := Option.isNone_iff_eq_none.mp malformed
  have alike := Document.readsAlike_insert_malformed undefined alone
  have table := ofMessages_insert_record before (.message m) (Or.inl undefined) after
  exact ⟨alike.order, alike.entries, alike.classes table, congrArg MessageTable.dataTypes table,
    congrArg List.reverse alike.order⟩

/-- Only the report that `go` is not declared is gone. -/
theorem ofRecords_insert_malformed_referenced :
    garbled.isMalformed = true ∧ (.message, garbled.name) ∉ ([item] ++ [sending]).map Record.key ∧
    (Graph.ofDocument (.ofRecords ([item] ++ [sending]))).warnings =
      [.danglingReference "item" .inbound "go"] ∧
    (Graph.ofDocument (.ofRecords ([item] ++ .message garbled :: [sending]))).warnings = [] ∧
    (Graph.ofDocument (.ofRecords ([item] ++ .message garbled :: [sending]))).order =
      (Graph.ofDocument (.ofRecords ([item] ++ [sending]))).order ∧
    (Graph.ofDocument (.ofRecords ([item] ++ .message garbled :: [sending]))).entries =
      (Graph.ofDocument (.ofRecords ([item] ++ [sending]))).entries ∧
    (ofDocument (.ofRecords ([item] ++ .message garbled :: [sending]))).classes =
      (ofDocument (.ofRecords ([item] ++ [sending]))).classes ∧
    (ofDocument (.ofRecords ([item] ++ .message garbled :: [sending]))).dataTypes =
      (ofDocument (.ofRecords ([item] ++ [sending]))).dataTypes := by
  have malformed : garbled.isMalformed = true := by decide
  have alone : (.message, garbled.name) ∉ ([item] ++ [sending]).map Record.key := by decide
  obtain ⟨order, entries, classes, types, -⟩ := ofRecords_insert_malformed malformed alone
  exact ⟨malformed, alone, by decide +kernel, by decide +kernel, order, entries, classes, types⟩

end Model

end Binding

end ContractAbi
