import ContractAbi.Proofs.Binding.Classes
import ContractAbi.Proofs.Naming.Gives
import ContractAbi.Proofs.Naming.Identifier

/-!
# The names of a model

The names that stand in one scope of generated code are identifiers, no two of them are the same,
and none is a name that the scope has already; nor would dropping the raw marks make any two the
same (`Separate`). A namer for each scope sees to that, and each part of the model makes its claims
there: the queries and sends of a class for their functions, the results for their types, the
parameters for their fields, the classes and the messages for their own types.
-/

namespace ContractAbi

namespace Naming

/-- What the names of one scope have to be, where those that are `taken` belong to others. -/
structure Separate (taken names : List String) : Prop where
  legal : ∀ name ∈ names, isIdentifier name = true
  distinct : names.Nodup
  free : ∀ name ∈ names, name ∉ taken
  plainDistinct : (names.map plain).Nodup
  plainFree : ∀ name ∈ names, plain name ∉ taken

variable {taken names : List String} {after : Namer}

/-- Names that are escaped and apart cannot meet what is taken. -/
theorem Separate.of_escaped (ordinary : ∀ word ∈ taken, word ∉ keywords)
    (escaped : ∀ name ∈ names, Escaped name) (distinct : names.Nodup)
    (free : ∀ name ∈ names, name ∉ taken) : Separate taken names where
  legal name member := (escaped name member).isIdentifier
  distinct := distinct
  free := free
  plainDistinct := by
    apply List.Nodup.map_on _ distinct
    intro a memberA b memberB same
    exact ((escaped a memberA).plain_inj (escaped b memberB)).mp same
  plainFree name member := (escaped name member).plain_notMem ordinary (free name member)

theorem escaped_of_gives {before : Namer} (given : Namer.Gives Escaped before names after) :
    ∀ name ∈ names, Escaped name :=
  given.kinds fun _ n escaped => escaped_numbered escaped.isName_plain n

/-- What a namer gives that reserves the names taken is as it has to be. -/
theorem Separate.of_gives (ordinary : ∀ word ∈ taken, word ∉ keywords)
    (given : Namer.Gives Escaped (.reserving taken) names after) : Separate taken names :=
  .of_escaped ordinary (escaped_of_gives given) given.nodup fun _ => given.notMem_taken

end Naming

namespace Binding

open Naming (Escaped Separate escaped_append isWordChar_of_mem_identifierPart)
open Namer (Gives)

/-! ### Fields -/

/-- The names of fields are claimed one after the other. -/
theorem idents_fieldsOf (category : Parameter → Category) (params : List Parameter) :
    (fieldsOf category params).map (·.ident) =
      ((Namer.claimAll (params.map fun p => Naming.identifier p.name)).run ⟨[]⟩).1 := by
  rw [fieldsOf]
  have enough := length_identifiers params
  generalize ((Namer.claimAll _).run _).1 = idents at enough ⊢
  induction params generalizing idents with
  | nil => exact (List.eq_nil_of_length_eq_zero enough).symm
  | cons p params ih =>
    cases idents with
    | nil => cases enough
    | cons ident idents =>
      rw [List.zipWith_cons_cons, List.map_cons, ih idents (Nat.succ.inj enough)]

/-- The names of the fields of a record are apart. -/
theorem separate_fieldsOf (category : Parameter → Category) (params : List Parameter) :
    Separate [] ((fieldsOf category params).map (·.ident)) := by
  rw [idents_fieldsOf]
  refine Separate.of_gives (by simp) (Gives.claimAll ?_ _)
  intro candidate member
  obtain ⟨p, -, rfl⟩ := List.mem_map.mp member
  exact Naming.escaped_identifier p.name

/-! ### The functions and the types of a class -/

/-- The functions of a query. -/
def Query.functions (q : Query) : List String :=
  [q.ident, q.probeIdent] ++ q.probeWithIdent.toList

/-- The functions of a send. -/
def Send.functions (s : Send) : List String := [s.ident, s.probeIdent]

/-- The type that gathers a result, if it has one of its own. -/
def Result.typeName? : Result → Option String
  | .record typeName _ => some typeName
  | _ => none

/-- The functions of a class. -/
def Class.functions (c : Class) : List String :=
  c.queries.flatMap (·.functions) ++ c.sends.flatMap (·.functions)

/-- The types in the module of a class: its own and those that gather results. -/
def Class.types (c : Class) : List String :=
  c.typeName :: c.queries.flatMap (·.result.typeName?.toList)

theorem escaped_probe (name : String) : Escaped ("probe_" ++ Naming.identifierPart name) :=
  escaped_append (by decide) (fun _ => isWordChar_of_mem_identifierPart) (by simp)

theorem escaped_probeWith (name : String) :
    Escaped ("probe_" ++ Naming.identifierPart name ++ "_with") := by
  have back : ∀ c ∈ "_with".toList, Text.isWordChar c = true := List.all_eq_true.mp (by decide)
  rw [String.append_assoc]
  apply escaped_append (by decide)
  · intro c member
    rw [String.toList_append] at member
    rcases List.mem_append.mp member with part | behind
    · exact isWordChar_of_mem_identifierPart part
    · exact back c behind
  · simp

theorem escaped_send (name : String) : Escaped ("send_" ++ Naming.identifierPart name) :=
  escaped_append (by decide) (fun _ => isWordChar_of_mem_identifierPart) (by simp)

theorem escaped_probeSend (name : String) :
    Escaped ("probe_send_" ++ Naming.identifierPart name) :=
  escaped_append (by decide) (fun _ => isWordChar_of_mem_identifierPart) (by simp)

theorem gives_method {candidate : String} (escaped : Escaped candidate) (scope : Scope) :
    Gives Escaped scope.methods [((Scope.method candidate).run scope).1]
      ((Scope.method candidate).run scope).2.methods :=
  .one escaped scope.methods

/-- A result claims the name of its type, if it has one, and no function. -/
theorem gives_resultOf (method : GetMethod) (scope : Scope) :
    Gives Escaped scope.types (((resultOf method).run scope).1.typeName?.toList)
        ((resultOf method).run scope).2.types ∧
      ((resultOf method).run scope).2.methods = scope.methods := by
  rw [resultOf]
  cases fieldsOf Category.ofParameter method.outputs with
  | nil => exact ⟨.done _, rfl⟩
  | cons first rest =>
    cases rest with
    | nil => exact ⟨.done _, rfl⟩
    | cons second rest => exact ⟨.one (Naming.escaped_resultName method.name) scope.types, rfl⟩

/-- A query takes names for its functions and its result, and no others. -/
theorem gives_queryOf (method : GetMethod) (scope : Scope) :
    Gives Escaped scope.methods ((queryOf method).run scope).1.functions
        ((queryOf method).run scope).2.methods ∧
      Gives Escaped scope.types (((queryOf method).run scope).1.result.typeName?.toList)
        ((queryOf method).run scope).2.types := by
  -- The scope behind the claim of the call and behind that of the probe.
  let called := ((Scope.method (Naming.identifier method.name)).run scope).2
  let probed := ((Scope.method ("probe_" ++ Naming.identifierPart method.name)).run called).2
  have call := gives_method (Naming.escaped_identifier method.name) scope
  have probe := gives_method (escaped_probe method.name) called
  unfold queryOf
  by_cases empty : (fieldsOf Category.ofParameter method.inputs).isEmpty = true
  · simp only [empty, if_true]
    obtain ⟨type, methods⟩ := gives_resultOf method
      ((Scope.method ("probe_" ++ Naming.identifierPart method.name)).run called).2
    have both := call.append probe
    rw [← methods] at both
    exact ⟨both, type⟩
  · simp only [empty, Bool.false_eq_true, if_false]
    have probeWith := gives_method (escaped_probeWith method.name) probed
    obtain ⟨type, methods⟩ := gives_resultOf method
      ((Scope.method ("probe_" ++ Naming.identifierPart method.name ++ "_with")).run probed).2
    have all := (call.append probe).append probeWith
    rw [← methods] at all
    exact ⟨all, type⟩

/-- A send takes names for its two functions. -/
theorem gives_sendOf (message : String) (body : DataType) (scope : Scope) :
    Gives Escaped scope.methods ((sendOf message body).run scope).1.functions
      ((sendOf message body).run scope).2.methods := by
  have call := gives_method (escaped_send message) scope
  have probe := gives_method (escaped_probeSend message)
    ((Scope.method ("send_" ++ Naming.identifierPart message)).run scope).2
  exact call.append probe

/-- All functions of a class take their names in one scope, and so do all its types. -/
theorem gives_membersOf (doc : Document) (table : MessageTable) (members : Members)
    (scope : Scope) :
    (∃ after, Gives Escaped scope.methods
      (((membersOf doc table members).run scope).1.1.flatMap (·.functions) ++
        ((membersOf doc table members).run scope).1.2.flatMap (·.functions)) after) ∧
    ∃ after, Gives Escaped scope.types
      (((membersOf doc table members).run scope).1.1.flatMap (·.result.typeName?.toList)) after := by
  let methods := members.getMethods.filterMap doc.getMethod?
  let bodies := members.inbound.filterMap fun m => (table.lookup m).map (m, ·)
  have queries := Gives.mapM queryOf Scope.methods Query.functions
    (fun method (_ : method ∈ methods) scope => (gives_queryOf method scope).1) scope
  have records := Gives.mapM queryOf Scope.types (fun q => q.result.typeName?.toList)
    (fun method (_ : method ∈ methods) scope => (gives_queryOf method scope).2) scope
  have sends := Gives.mapM (fun (entry : String × DataType) => sendOf entry.1 entry.2)
    Scope.methods Send.functions
    (fun entry (_ : entry ∈ bodies) scope => gives_sendOf entry.1 entry.2 scope)
    ((methods.mapM queryOf).run scope).2
  exact ⟨⟨_, queries.append sends⟩, ⟨_, records⟩⟩

/-! ### The data types -/

namespace MessageTable

variable {t : MessageTable}

/-- A message adds a data type or leaves those that are there. -/
theorem add_eq (t : MessageTable) (m : Message) :
    (∃ entries, t.add m = { t with entries }) ∨ ∃ base d, t.add m = t.create m.name base d := by
  unfold add
  split
  · split
    · split
      · exact .inl ⟨_, rfl⟩
      · exact .inr ⟨_, _, rfl⟩
    · exact .inr ⟨_, _, rfl⟩
  · exact .inl ⟨t.entries, rfl⟩

/-- A message that is added to the table takes at most one name for a data type. -/
theorem gives_add (given : Gives Escaped empty.namer (t.dataTypes.map (·.typeName)) t.namer)
    (m : Message) :
    Gives Escaped empty.namer ((t.add m).dataTypes.map (·.typeName)) (t.add m).namer := by
  rcases t.add_eq m with ⟨entries, same⟩ | ⟨base, d, created⟩
  · rw [same]
    exact given
  · have names : (t.create m.name base d).dataTypes.map (·.typeName) =
        t.dataTypes.map (·.typeName) ++ [t.namer.choose (Naming.typeName base)] := List.map_append
    rw [created, names]
    exact given.append (.one (Naming.escaped_typeName base) t.namer)

/-- The data types have the names that the table gave, in order. -/
theorem gives_ofMessages (messages : List Message) :
    Gives Escaped empty.namer ((ofMessages messages).dataTypes.map (·.typeName))
      (ofMessages messages).namer :=
  List.foldlRecOn messages add
    (motive := fun t => Gives Escaped empty.namer (t.dataTypes.map (·.typeName)) t.namer)
    (.done _) fun _ given m _ => gives_add given m

/-- Every data type has the fields of some definition. -/
theorem exists_bodyFields_of_mem {messages : List Message} {type : DataType}
    (member : type ∈ (ofMessages messages).dataTypes) : ∃ d, type.fields = bodyFields d := by
  have all : ∀ type ∈ (ofMessages messages).dataTypes, ∃ d, type.fields = bodyFields d := by
    refine List.foldlRecOn messages add
      (motive := fun t => ∀ type ∈ t.dataTypes, ∃ d, type.fields = bodyFields d) ?_ ?_
    · intro type listed
      cases listed
    · intro t known m _
      rcases t.add_eq m with ⟨entries, same⟩ | ⟨base, d, created⟩
      · rw [same]
        exact known
      · rw [created]
        intro type listed
        rcases List.mem_append.mp listed with old | new
        · exact known type old
        · rw [List.mem_singleton.mp new]
          exact ⟨d, rfl⟩
  exact all type member

end MessageTable

namespace Model

/-! ### The model -/

/-- What the names of a model have to be, scope by scope. -/
structure WellNamed (m : Model) : Prop where
  functions : ∀ c ∈ m.classes, Separate reservedMethods c.functions
  types : ∀ c ∈ m.classes, Separate (takenTypeNames classImports) c.types
  inputs : ∀ c ∈ m.classes, ∀ q ∈ c.queries, Separate [] (q.inputs.map (·.ident))
  outputs : ∀ c ∈ m.classes, ∀ q ∈ c.queries, Separate [] (q.result.fields.map (·.ident))
  classes : Separate (takenTypeNames classImports) (m.classes.map (·.typeName))
  dataTypes : Separate (takenTypeNames messageImports) (m.dataTypes.map (·.typeName))
  fields : ∀ d ∈ m.dataTypes, Separate [] (d.fields.map (·.ident))

variable {doc : Document} {c : Class}

/-- The members of a class are named in a scope of their own. -/
theorem exists_scope (member : c ∈ (ofDocument doc).classes) : ∃ members, (c.queries, c.sends) =
    ((membersOf doc (MessageTable.ofMessages doc.messages) members).run (.ofClass c.typeName)).1 := by
  obtain ⟨i, -, names, rfl⟩ := exists_of_mem_mapM member
  exact ⟨_, rfl⟩

/-- The functions of a class have names of their own. -/
theorem separate_functions (member : c ∈ (ofDocument doc).classes) :
    Separate reservedMethods c.functions := by
  obtain ⟨members, parts⟩ := exists_scope member
  obtain ⟨⟨after, given⟩, -⟩ :=
    gives_membersOf doc (MessageTable.ofMessages doc.messages) members (.ofClass c.typeName)
  rw [← parts] at given
  exact .of_gives (by decide) given

/-- The classes have the type names that the model gave, in order. -/
theorem gives_classes (doc : Document) : ∃ after, Gives Escaped
    (.reserving (takenTypeNames classImports)) ((ofDocument doc).classes.map (·.typeName)) after := by
  let declared := (Graph.ofDocument doc).order.filterMap doc.interface?
  have given := Gives.mapM
    (classOf doc (Graph.ofDocument doc) (MessageTable.ofMessages doc.messages)) ClassNames.types
    (fun c => [c.typeName])
    (fun i (_ : i ∈ declared) names => Gives.one (Naming.escaped_typeName i.name) names.types)
    .empty
  rw [← List.map_eq_flatMap] at given
  exact ⟨_, given⟩

/-- The result types of a class have names of their own. -/
theorem separate_types (member : c ∈ (ofDocument doc).classes) :
    Separate (takenTypeNames classImports) c.types := by
  obtain ⟨_, classes⟩ := gives_classes doc
  obtain ⟨members, parts⟩ := exists_scope member
  obtain ⟨-, ⟨_, records⟩⟩ :=
    gives_membersOf doc (MessageTable.ofMessages doc.messages) members (.ofClass c.typeName)
  rw [← parts] at records
  -- The name of the class is taken in its own module as well.
  have own : c.typeName ∈ (ofDocument doc).classes.map (·.typeName) := List.mem_map_of_mem member
  refine .of_escaped (by decide) ?_ ?_ ?_
  · intro name listed
    rcases List.mem_cons.mp listed with rfl | record
    · exact Naming.escaped_of_gives classes _ own
    · exact Naming.escaped_of_gives records name record
  · refine List.nodup_cons.mpr ⟨?_, records.nodup⟩
    intro again
    exact records.notMem_taken again List.mem_cons_self
  · intro name listed
    rcases List.mem_cons.mp listed with rfl | record
    · exact classes.notMem_taken own
    · intro taken
      exact records.notMem_taken record (List.mem_cons_of_mem _ taken)

/-- The names of a model, whatever its description calls its interfaces, get-methods, messages and
parameters. -/
theorem wellNamed_ofDocument (doc : Document) : (ofDocument doc).WellNamed where
  functions _ member := separate_functions member
  types _ member := separate_types member
  inputs c member q listed := by
    obtain ⟨g, -, shape⟩ := exists_getMethod member listed
    rw [show q.inputs = _ from congrArg (fun s => s.2.1) shape]
    exact separate_fieldsOf _ _
  outputs c member q listed := by
    obtain ⟨g, -, shape⟩ := exists_getMethod member listed
    rw [show q.result.fields = _ from congrArg (fun s => s.2.2) shape]
    exact separate_fieldsOf _ _
  classes := by
    obtain ⟨_, given⟩ := gives_classes doc
    exact .of_gives (by decide) given
  dataTypes := .of_gives (by decide) (MessageTable.gives_ofMessages doc.messages)
  fields d member := by
    obtain ⟨definition, fields⟩ := MessageTable.exists_bodyFields_of_mem member
    rw [fields]
    exact separate_fieldsOf _ _

/-- A get-method with the name of a probe, one with the name of a function that every class has, and
one with the name of a keyword. -/
example : (ofDocument ⟨[⟨"item", none, none, ["x", "probe_x", "new", "type"], [], []⟩],
      [⟨"x", [], []⟩, ⟨"probe_x", [], []⟩, ⟨"new", [], []⟩, ⟨"type", [], []⟩], []⟩).classes.map
        (·.functions) =
    [["x", "probe_x", "probe_x_2", "probe_probe_x", "new_2", "probe_new", "r#type",
      "probe_type"]] := by
  decide +kernel

end Model

end Binding

end ContractAbi
