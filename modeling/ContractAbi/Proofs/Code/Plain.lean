import ContractAbi.Code.Class
import ContractAbi.Proofs.Binding.Names
import ContractAbi.Proofs.Binding.Sends
import ContractAbi.Proofs.Code.Skeleton

/-!
# Generated names and types are plain

Nothing in the identifiers of a model, in the types of its fields or in the expressions for them
begins a comment or a literal, nor does a line end in them.
-/

namespace ContractAbi

namespace Binding

/-- The identifiers in the code of a query. -/
def Query.idents (q : Query) : List String :=
  q.functions ++ q.result.typeName?.toList ++ (q.inputs ++ q.result.fields).map (·.ident)

/-- The identifiers in the code of a send. -/
def Send.idents (s : Send) : List String :=
  s.functions ++ s.body.typeName :: s.body.fields.map (·.ident)

/-- The identifiers in the code of a class. -/
def Class.idents (c : Class) : List String :=
  c.typeName :: c.queries.flatMap (·.idents) ++ c.sends.flatMap (·.idents)

/-- All names that a class has in code are identifiers. -/
theorem Model.isIdentifier_of_mem_idents {doc : Document} {c : Class}
    (member : c ∈ (ofDocument doc).classes) :
    ∀ name ∈ c.idents, Naming.isIdentifier name = true := by
  have named := wellNamed_ofDocument doc
  have functions := (named.functions c member).legal
  have types := (named.types c member).legal
  simp only [Class.functions, Class.types, List.forall_mem_append, List.forall_mem_cons,
    List.forall_mem_flatMap] at functions types
  simp only [Class.idents, Query.idents, Send.idents, List.map_append, List.forall_mem_append,
    List.forall_mem_cons, List.forall_mem_flatMap]
  refine ⟨⟨types.1, fun q listed => ⟨⟨functions.1 q listed, types.2 q listed⟩, ?_, ?_⟩⟩,
    fun s sent => ⟨functions.2 s sent, ?_⟩⟩
  · exact (named.inputs c member q listed).legal
  · exact (named.outputs c member q listed).legal
  · obtain ⟨d, -, listed, -⟩ := exists_definition_of_mem member sent
    exact ⟨named.dataTypes.legal _ (List.mem_map_of_mem listed), (named.fields s.body listed).legal⟩

end Binding

namespace Code

open Binding (Field Import Model Query Send)

/-! ### Lists of texts -/

theorem isPlain_join {xs : List String} (plain : ∀ x ∈ xs, IsPlain x) :
    IsPlain (String.join xs) := by
  intro c among
  rw [String.toList_join] at among
  obtain ⟨x, listed, inside⟩ := List.mem_flatMap.mp among
  exact plain x listed c inside

/-- What holds of all characters of some texts and of what separates them holds of all characters
of the whole. -/
theorem forall_mem_intercalate {p : Char → Prop} {separator : String}
    (between : ∀ c ∈ separator.toList, p c) {xs : List String}
    (inside : ∀ x ∈ xs, ∀ c ∈ x.toList, p c) : ∀ c ∈ (separator.intercalate xs).toList, p c := by
  induction xs with
  | nil =>
    intro c among
    cases among
  | cons x xs ih =>
    obtain ⟨first, others⟩ := List.forall_mem_cons.mp inside
    cases xs with
    | nil => simpa [String.intercalate_singleton] using first
    | cons y xs =>
      rw [String.intercalate_cons_cons, String.toList_append, String.toList_append]
      exact List.forall_mem_append.mpr
        ⟨List.forall_mem_append.mpr ⟨first, between⟩, ih others⟩

theorem isPlain_comma : IsPlain ", " := .ofList (by decide)

theorem isPlain_intercalate {xs : List String} (plain : ∀ x ∈ xs, IsPlain x) :
    IsPlain (", ".intercalate xs) := forall_mem_intercalate isPlain_comma plain

/-! ### Types and expressions -/

theorem isPlain_hostType (t : HostType) : IsPlain t.text := by
  cases t <;> exact .ofList (by decide)

theorem isPlain_readerMethod (c : Category) : IsPlain (readerMethod c) := by
  unfold readerMethod
  repeat' split
  all_goals exact .ofList (by decide)

/-- Defaults are written without comments and literals. -/
theorem isPlain_defaultExpression (f : Field) (p : Position) : IsPlain (defaultExpression f p) := by
  unfold defaultExpression
  cases f.defaultValue p with
  | zero =>
    dsimp only
    split
    · exact .ofList (by decide)
    · exact .ofList (by decide)
    · exact (isPlain_hostType _).append (.ofList (by decide))
  | emptyCell =>
    dsimp only
    split <;> exact .ofList (by decide)
  | _ => exact .ofList (by decide)

section fields

variable {fields : List Field} (plain : ∀ f ∈ fields, IsPlain f.ident) (p : Position)
include plain

theorem isPlain_parameters : IsPlain (parameters fields p) := by
  refine isPlain_join ?_
  intro x listed
  obtain ⟨f, member, rfl⟩ := List.mem_map.mp listed
  exact .append (.append (.append isPlain_comma (plain f member)) (.ofList (by decide)))
    (isPlain_hostType _)

theorem isPlain_arguments : IsPlain (arguments fields) := by
  refine isPlain_intercalate ?_
  intro x listed
  obtain ⟨f, member, rfl⟩ := List.mem_map.mp listed
  exact plain f member

theorem isPlain_memberLines : ∀ line ∈ memberLines fields p, IsPlain line := by
  intro line listed
  obtain ⟨f, member, rfl⟩ := List.mem_map.mp listed
  exact .append (.append (.append (.append (.ofList (by decide)) (plain f member))
    (.ofList (by decide))) (isPlain_hostType _)) (.ofList (by decide))

end fields

theorem isPlain_defaultArguments (fields : List Field) (p : Position) :
    IsPlain (defaultArguments fields p) := by
  refine isPlain_intercalate ?_
  intro x listed
  obtain ⟨f, -, rfl⟩ := List.mem_map.mp listed
  exact isPlain_defaultExpression f p

theorem isPlain_importLine {i : Import} (path : IsPlain i.path) (names : ∀ n ∈ i.names, IsPlain n) :
    IsPlain (importLine i) := by
  unfold importLine
  have use : IsPlain ("use " ++ i.path) := .append (.ofList (by decide)) path
  split
  next name single =>
    rw [single] at names
    exact .append (.append (use.append (.ofList (by decide))) (names name List.mem_cons_self))
      (.ofList (by decide))
  next =>
    exact .append (.append (use.append (.ofList (by decide))) (isPlain_intercalate names))
      (.ofList (by decide))

theorem isPlain_importLines : ∀ line ∈ Binding.classImports.map importLine, IsPlain line := by
  have literal : ∀ i ∈ Binding.classImports, IsPlain i.path ∧ ∀ n ∈ i.names, IsPlain n := by
    simp only [Binding.classImports, List.forall_mem_cons, List.not_mem_nil, false_implies,
      implies_true, and_true]
    refine ⟨⟨?_, ?_⟩, ⟨?_, ?_, ?_⟩, ?_, ?_, ?_, ?_, ?_, ?_, ?_, ?_, ?_, ?_, ?_⟩ <;>
      exact .ofList (by decide)
  intro line listed
  obtain ⟨i, imported, rfl⟩ := List.mem_map.mp listed
  exact isPlain_importLine (literal i imported).1 (literal i imported).2

/-! ### Identifiers -/

/-- An identifier has word characters and the mark of a raw one. -/
theorem forall_mem_of_isIdentifier {p : Char → Prop} (word : ∀ c, Text.isWordChar c = true → p c)
    (mark : p '#') {ident : String} (identifier : Naming.isIdentifier ident = true) :
    ∀ c ∈ ident.toList, p c := by
  intro c among
  unfold Naming.isIdentifier at identifier
  split at identifier
  next name raw =>
    rw [raw] at among
    simp only [Bool.and_eq_true, Naming.isName_iff] at identifier
    rcases List.mem_cons.mp among with rfl | among
    · exact word 'r' (by decide)
    · rcases List.mem_cons.mp among with rfl | among
      · exact mark
      · exact word c (identifier.1.2.1 c among)
  next name =>
    simp only [Bool.and_eq_true, Naming.isName_iff] at identifier
    exact word c (identifier.1.2.1 c among)

/-- Identifiers are plain, so that they begin no comment and no literal. -/
theorem isPlain_of_isIdentifier {ident : String} (identifier : Naming.isIdentifier ident = true) :
    IsPlain ident := by
  refine forall_mem_of_isIdentifier ?_ (by decide) identifier
  intro c word
  refine ⟨?_, ?_, ?_⟩ <;> rintro rfl <;> revert word <;> decide

/-- The names of a query in generated code are plain. -/
structure PlainQuery (q : Query) : Prop where
  functions : ∀ name ∈ q.functions, IsPlain name
  inputs : ∀ f ∈ q.inputs, IsPlain f.ident
  outputs : ∀ f ∈ q.result.fields, IsPlain f.ident
  record : ∀ name ∈ q.result.typeName?, IsPlain name

/-- The names of a send in generated code are plain. -/
structure PlainSend (s : Send) : Prop where
  functions : ∀ name ∈ s.functions, IsPlain name
  fields : ∀ f ∈ s.body.fields, IsPlain f.ident
  body : IsPlain s.body.typeName

/-- The names of a class in generated code are plain. -/
structure PlainClass (c : Binding.Class) : Prop where
  typeName : IsPlain c.typeName
  queries : ∀ q ∈ c.queries, PlainQuery q
  sends : ∀ s ∈ c.sends, PlainSend s

theorem PlainQuery.ident {q : Query} (plain : PlainQuery q) : IsPlain q.ident :=
  plain.functions _ List.mem_cons_self

theorem PlainQuery.probeIdent {q : Query} (plain : PlainQuery q) : IsPlain q.probeIdent :=
  plain.functions _ (List.mem_cons_of_mem _ List.mem_cons_self)

theorem PlainSend.ident {s : Send} (plain : PlainSend s) : IsPlain s.ident :=
  plain.functions _ List.mem_cons_self

theorem PlainSend.probeIdent {s : Send} (plain : PlainSend s) : IsPlain s.probeIdent :=
  plain.functions _ (List.mem_cons_of_mem _ List.mem_cons_self)

/-- The names of a class of a model are plain, for they are identifiers. -/
theorem plainClass_of_mem {doc : Document} {c : Binding.Class}
    (member : c ∈ (Model.ofDocument doc).classes) : PlainClass c := by
  have plain {name : String} (listed : name ∈ c.idents) : IsPlain name :=
    isPlain_of_isIdentifier (Model.isIdentifier_of_mem_idents member name listed)
  simp only [Binding.Class.idents, List.mem_append, List.mem_cons, List.mem_flatMap] at plain
  refine ⟨plain (.inl (.inl rfl)), ?_, ?_⟩
  · intro q listed
    have own {name : String} (inside : name ∈ q.idents) : IsPlain name :=
      plain (.inl (.inr ⟨q, listed, inside⟩))
    simp only [Query.idents, List.mem_append, List.mem_map] at own
    exact ⟨fun name function => own (.inl (.inl function)),
      fun f input => own (.inr ⟨f, .inl input, rfl⟩),
      fun f output => own (.inr ⟨f, .inr output, rfl⟩),
      fun name record => own (.inl (.inr (Option.mem_toList.mpr record)))⟩
  · intro s sent
    have own {name : String} (inside : name ∈ s.idents) : IsPlain name :=
      plain (.inr ⟨s, sent, inside⟩)
    simp only [Send.idents, List.mem_append, List.mem_cons, List.mem_map] at own
    exact ⟨fun name function => own (.inl function),
      fun f field => own (.inr (.inr ⟨f, field, rfl⟩)), own (.inr (.inl rfl))⟩

end Code

end ContractAbi
