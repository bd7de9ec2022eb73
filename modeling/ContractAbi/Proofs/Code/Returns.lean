import ContractAbi.Code.Package
import ContractAbi.Proofs.Code.CommentTexts
import ContractAbi.Proofs.Code.Lines
import ContractAbi.Proofs.Contract.OpcodeCheck
import ContractAbi.Proofs.Generation.Output
import ContractAbi.Proofs.Text.Decimal

/-!
# Carriage returns in generated code

A carriage return in a generated file is one of a text that stands in a comment: quoting a text
escapes it, and identifiers, numbers and digits have none.
-/

namespace ContractAbi.Code

open Binding (DataType Field Import Model Query Result Send)
open Text.Quoted (quote)

/-- No carriage return is in the lines. -/
def NoReturns (ls : List Line) : Prop := ∀ l ∈ ls, NoReturn l.content

/-- Where the condition is checked letter by letter, `simp` uses this for the literals of the
generator. -/
theorem noReturn_literal {text : String} (checked : NoReturn text) : NoReturn text ↔ True :=
  iff_true_intro checked

section lists

variable {ls ms : List Line} {xs : List String} {text : String}

@[simp] theorem noReturn_content_text : NoReturn (Line.text text).content ↔ NoReturn text := Iff.rfl

@[simp] theorem noReturns_nil : NoReturns [] := List.forall_mem_nil _

@[simp] theorem noReturns_cons {l : Line} :
    NoReturns (l :: ls) ↔ NoReturn l.content ∧ NoReturns ls := List.forall_mem_cons

@[simp] theorem noReturns_append : NoReturns (ls ++ ms) ↔ NoReturns ls ∧ NoReturns ms :=
  List.forall_mem_append

theorem noReturns_flatMap {α : Type} {f : α → List Line} {as : List α} :
    NoReturns (as.flatMap f) ↔ ∀ a ∈ as, NoReturns (f a) := List.forall_mem_flatMap

theorem noReturns_texts : NoReturns (texts xs) ↔ ∀ x ∈ xs, NoReturn x := List.forall_mem_map

@[simp] theorem noReturns_texts_nil : NoReturns (texts []) := noReturns_nil

@[simp] theorem noReturns_texts_cons :
    NoReturns (texts (text :: xs)) ↔ NoReturn text ∧ NoReturns (texts xs) := noReturns_cons

@[simp] theorem noReturns_texts_append {ys : List String} :
    NoReturns (texts (xs ++ ys)) ↔ NoReturns (texts xs) ∧ NoReturns (texts ys) := by
  rw [texts, List.map_append, noReturns_append, texts, texts]

@[simp] theorem noReturns_texts_map {α : Type} {f : α → String} {as : List α} :
    NoReturns (texts (as.map f)) ↔ ∀ a ∈ as, NoReturn (f a) := by
  rw [noReturns_texts, List.forall_mem_map]

@[simp] theorem noReturns_blank : NoReturn blank.content := .ofList rfl

@[simp] theorem noReturns_block {header suffix : String} :
    NoReturns (block header ls suffix) ↔ NoReturn header ∧ NoReturns ls ∧ NoReturn suffix := by
  have brace : NoReturn " \x7b" ∧ NoReturn "\x7d" := ⟨.ofList rfl, .ofList rfl⟩
  simp [block, Line.content, brace]

@[simp] theorem noReturns_spaced {items : List (List Line)} :
    NoReturns (spaced items) ↔ ∀ item ∈ items, NoReturns item := by
  simp only [spaced, NoReturns, List.forall_mem_flatMap, List.forall_mem_cons]
  exact forall₂_congr fun _ _ => and_iff_right noReturns_blank

end lists

/-! ### Parts of a line -/

theorem ne_return_of_isWordChar {c : Char} (word : Text.isWordChar c = true) : c ≠ '\r' := by
  rintro rfl
  exact absurd word (by decide)

theorem ne_return_of_mem_encodeChar {c d : Char} (among : d ∈ Text.Quoted.encodeChar c) :
    d ≠ '\r' := by
  have other {cs : List Char} (inside : d ∈ cs) (others : cs.all (· != '\r') = true) :
      d ≠ '\r' := by
    simpa using List.all_eq_true.mp others d inside
  unfold Text.Quoted.encodeChar at among
  split_ifs at among with quote backslash tab carriage lineEnd nul unseen
  iterate 6 · exact other among rfl
  · simp only [List.mem_append, or_assoc] at among
    rcases among with mark | digit | close
    · exact other mark rfl
    · exact ne_return_of_isWordChar
        (Text.isWordChar_of_isHexDigit (isHexDigit_of_mem_hexDigits digit))
    · exact other close rfl
  · rw [List.mem_singleton.mp among]
    exact carriage

/-- Quoting escapes carriage returns. -/
@[simp] theorem noReturn_quote (text : String) : NoReturn (quote text) := by
  intro c among
  simp only [quote, String.toList_ofList, List.mem_append, List.mem_cons, List.not_mem_nil,
    or_false, Text.Quoted.encode, List.mem_flatMap] at among
  rcases among with (rfl | ⟨d, -, encoded⟩) | rfl
  · decide
  · exact ne_return_of_mem_encodeChar encoded
  · decide

@[simp] theorem noReturn_repr (n : Nat) : NoReturn n.repr := by
  intro c among
  rw [Nat.toList_repr] at among
  rintro rfl
  exact absurd (Text.Decimal.isDigit_of_mem_toDigits among) (by decide)

@[simp] theorem noReturn_digits (op : Opcode) : NoReturn op.digits := by
  intro c among
  exact ne_return_of_isWordChar
    (Text.isWordChar_of_isHexDigit (op.isHexDigit_of_mem_digits c among))

@[simp] theorem noReturn_lowerCase_digits (op : Opcode) : NoReturn (Text.lowerCase op.digits) := by
  intro c among
  rw [Text.lowerCase, String.toList_ofList] at among
  obtain ⟨d, digit, rfl⟩ := List.mem_map.mp among
  have lower := Text.forall_of_ascii (q := fun c => c.toLower != '\r') Text.toNat_lt_of_isHexDigit
    (by decide) (op.isHexDigit_of_mem_digits d digit)
  simpa using lower

/-- There is no carriage return in an identifier. -/
theorem noReturn_of_isIdentifier {ident : String} (identifier : Naming.isIdentifier ident = true) :
    NoReturn ident :=
  forall_mem_of_isIdentifier (fun _ => ne_return_of_isWordChar) (by decide) identifier

theorem noReturn_join {xs : List String} (clean : ∀ x ∈ xs, NoReturn x) :
    NoReturn (String.join xs) := by
  intro c among
  rw [String.toList_join] at among
  obtain ⟨x, listed, inside⟩ := List.mem_flatMap.mp among
  exact clean x listed c inside

theorem noReturn_intercalate {separator : String} (between : NoReturn separator) {xs : List String}
    (clean : ∀ x ∈ xs, NoReturn x) : NoReturn (separator.intercalate xs) :=
  forall_mem_intercalate between clean

@[simp] theorem noReturn_hostType (t : HostType) : NoReturn t.text := by
  cases t <;> exact .ofList rfl

@[simp] theorem noReturn_readerMethod (c : Category) : NoReturn (readerMethod c) := by
  unfold readerMethod
  repeat' split
  all_goals exact .ofList rfl

@[simp] theorem noReturn_defaultExpression (f : Field) (p : Position) :
    NoReturn (defaultExpression f p) := by
  unfold defaultExpression
  repeat' split
  all_goals simp (disch := exact NoReturn.ofList rfl) [noReturn_literal]

@[simp] theorem noReturn_defaultArguments (fields : List Field) (p : Position) :
    NoReturn (defaultArguments fields p) :=
  noReturn_intercalate (.ofList rfl) (by simp)

section fields

variable {fields : List Field} (clean : ∀ f ∈ fields, NoReturn f.ident) (p : Position)
include clean

theorem noReturn_parameters : NoReturn (parameters fields p) :=
  noReturn_join (by simpa (disch := exact NoReturn.ofList rfl) [noReturn_literal] using clean)

theorem noReturn_arguments : NoReturn (arguments fields) :=
  noReturn_intercalate (.ofList rfl) (by simpa using clean)

theorem noReturns_memberLines : NoReturns (texts (memberLines fields p)) := by
  simpa (disch := exact NoReturn.ofList rfl) [noReturn_literal, memberLines] using clean

end fields

@[simp] theorem noReturn_loadCall (f : Field) : NoReturn (loadCall f) := by
  unfold loadCall
  repeat' split
  all_goals simp (disch := exact NoReturn.ofList rfl) [noReturn_literal]

theorem noReturn_storeCall {f : Field} (clean : NoReturn f.ident) : NoReturn (storeCall f) := by
  unfold storeCall
  repeat' split
  all_goals simp (disch := exact NoReturn.ofList rfl) [noReturn_literal, clean]

theorem noReturns_fileHeader {summary : String} (clean : NoReturn summary) :
    NoReturns (fileHeader summary) := by
  simp (disch := exact NoReturn.ofList rfl) [noReturn_literal, fileHeader, generator, clean]

theorem noReturns_importLines {imports : List Import}
    (clean : ∀ i ∈ imports, NoReturn i.path ∧ ∀ name ∈ i.names, NoReturn name) :
    NoReturns (importLines imports) := by
  simp only [importLines, noReturns_texts, List.forall_mem_map]
  intro i imported
  obtain ⟨path, names⟩ := clean i imported
  unfold importLine
  split
  next name single =>
    rw [single] at names
    have name := names name List.mem_cons_self
    simp (disch := exact NoReturn.ofList rfl) [noReturn_literal, path, name]
  next =>
    have listed := noReturn_intercalate (.ofList rfl : NoReturn ", ") names
    simp (disch := exact NoReturn.ofList rfl) [noReturn_literal, path, listed]

/-! ### Queries -/

section queries

variable {q : Query} (method : NoReturn q.method) (idents : ∀ name ∈ q.idents, NoReturn name)
include method idents

theorem noReturns_resultType : ∀ item ∈ resultType q, NoReturns item := by
  simp only [Query.idents, List.forall_mem_append, List.forall_mem_map] at idents
  obtain ⟨⟨-, record⟩, -, outputs⟩ := idents
  unfold resultType
  cases result : q.result with
  | unit | single => exact List.forall_mem_nil _
  | record typeName fields =>
    rw [result] at record outputs
    have name : NoReturn typeName := record typeName List.mem_cons_self
    have members : NoReturns (texts (memberLines fields .queryOutput)) :=
      noReturns_memberLines outputs .queryOutput
    simp (disch := exact NoReturn.ofList rfl) [noReturn_literal, method, name, members]

/-- The function of a query has no carriage return where the texts in its comments have none. -/
theorem noReturns_queryFunction : NoReturns (queryFunction q) := by
  simp only [Query.idents, Query.functions, List.forall_mem_append, List.forall_mem_cons,
    List.forall_mem_map] at idents
  obtain ⟨⟨⟨⟨ident, probe, -⟩, probeWith⟩, record⟩, inputs, outputs⟩ := idents
  have params := noReturn_parameters inputs .queryInput
  have values : NoReturn (", ".intercalate
      (q.inputs.map fun f => "WireValue::from(" ++ f.ident ++ ")")) :=
    noReturn_intercalate (.ofList rfl)
      (by simpa (disch := exact NoReturn.ofList rfl) [noReturn_literal] using inputs)
  unfold queryFunction queryBody resultTypeName
  cases result : q.result with
  | unit =>
    simp (disch := exact NoReturn.ofList rfl) [noReturn_literal, method, ident, params, values]
  | single field =>
    simp (disch := exact NoReturn.ofList rfl) [noReturn_literal, method, ident, params, values]
  | record typeName fields =>
    rw [result] at record outputs
    have name : NoReturn typeName := record typeName List.mem_cons_self
    have reads : ∀ f ∈ fields, NoReturn f.ident := outputs
    simpa (disch := exact NoReturn.ofList rfl) [noReturn_literal, method, ident, params, values,
      name] using reads

theorem noReturns_queryProbes : ∀ item ∈ queryProbes q, NoReturns item := by
  simp only [Query.idents, Query.functions, List.forall_mem_append, List.forall_mem_cons,
    List.forall_mem_map] at idents
  obtain ⟨⟨⟨⟨ident, probe, -⟩, probeWith⟩, -⟩, inputs, -⟩ := idents
  have params := noReturn_parameters inputs .queryInput
  have args := noReturn_arguments inputs
  unfold queryProbes
  cases given : q.probeWithIdent with
  | none =>
    simp (disch := exact NoReturn.ofList rfl) [noReturn_literal, probeFunction, method, ident,
      probe]
  | some withIdent =>
    rw [given] at probeWith
    have name : NoReturn withIdent := probeWith withIdent List.mem_cons_self
    simp (disch := exact NoReturn.ofList rfl) [noReturn_literal, probeFunction, method, ident,
      probe, name, params, args]

end queries

/-! ### Sends -/

section sends

variable {s : Send} (message : NoReturn s.message) (idents : ∀ name ∈ s.idents, NoReturn name)
include message idents

theorem noReturns_sendFunction : NoReturns (sendFunction s) := by
  simp only [Send.idents, Send.functions, List.forall_mem_append, List.forall_mem_cons,
    List.forall_mem_map] at idents
  obtain ⟨⟨ident, -, -⟩, type, fields⟩ := idents
  have params := noReturn_parameters fields .messageField
  have args := noReturn_arguments fields
  unfold sendFunction
  dsimp only
  split <;>
    simp (disch := exact NoReturn.ofList rfl) [noReturn_literal, Opcode.text, message, ident, type,
      params, args]

theorem noReturns_sendProbe : NoReturns (sendProbe s) := by
  simp only [Send.idents, Send.functions, List.forall_mem_append, List.forall_mem_cons,
    List.forall_mem_map] at idents
  obtain ⟨⟨ident, probe, -⟩, -, -⟩ := idents
  simp (disch := exact NoReturn.ofList rfl) [noReturn_literal, sendProbe, probeFunction, message,
    ident, probe]

end sends

/-! ### Classes -/

theorem noReturns_listFunction (name : String) (probes : List String) :
    NoReturns (listFunction name probes) ↔ NoReturn name := by
  have quoted : NoReturn (", ".intercalate (probes.map quote)) :=
    noReturn_intercalate (.ofList rfl) (by simp)
  simp (disch := exact NoReturn.ofList rfl) [noReturn_literal, listFunction, quoted]

theorem noReturns_dispatchFunction (name parameter : String) (probes : List (String × String)) :
    NoReturns (dispatchFunction name parameter probes) ↔
      (NoReturn name ∧ NoReturn parameter) ∧ ∀ p ∈ probes, NoReturn p.2 := by
  simp (disch := exact NoReturn.ofList rfl) [noReturn_literal, dispatchFunction]
  exact fun _ parameter _ => parameter

section classes

variable {c : Binding.Class} (names : ∀ name ∈ c.commentNames, NoReturn name)
  (idents : ∀ name ∈ c.idents, NoReturn name)

include names in
theorem noReturns_classHeader : NoReturns (classHeader c) := by
  simp only [Binding.Class.commentNames, List.forall_mem_append, List.forall_mem_cons] at names
  obtain ⟨⟨⟨⟨⟨interface, lineage⟩, fingerprint⟩, outbound⟩, -⟩, -⟩ := names
  have header : NoReturns (fileHeader ("Binding for the `" ++ c.interface ++ "` interface.")) :=
    noReturns_fileHeader
      (by simp (disch := exact NoReturn.ofList rfl) [noReturn_literal, interface])
  have emits := noReturn_intercalate (.ofList rfl : NoReturn ", ") outbound
  unfold classHeader
  simp only [noReturns_append, noReturns_texts, List.forall_mem_append]
  refine ⟨header, ⟨?ancestors, ?hash⟩, ?emitted⟩
  case ancestors =>
    split
    · next ancestor others names =>
      rw [names] at lineage
      have line := noReturn_intercalate (.ofList rfl : NoReturn " -> ") lineage
      simpa (disch := exact NoReturn.ofList rfl) [noReturn_literal] using line
    · exact List.forall_mem_nil _
  case hash =>
    split
    · next hash given =>
      have own : NoReturn hash := fingerprint hash (by simp [given])
      simp (disch := exact NoReturn.ofList rfl) [noReturn_literal, own]
    · exact List.forall_mem_nil _
  case emitted =>
    split
    · exact List.forall_mem_nil _
    · simp (disch := exact NoReturn.ofList rfl) [noReturn_literal, emits]

include idents in
theorem noReturns_conformanceCode : NoReturns (conformanceCode c) := by
  simp only [Binding.Class.idents, Query.idents, Query.functions, Send.idents, Send.functions,
    List.forall_mem_append, List.forall_mem_cons, List.forall_mem_flatMap] at idents
  obtain ⟨⟨typeName, queries⟩, sends⟩ := idents
  have ofQueries : ∀ q ∈ c.queries, NoReturn q.probeIdent := fun q listed =>
    (queries q listed).1.1.1.2.1
  have ofSends : ∀ s ∈ c.sends, NoReturn s.probeIdent := fun s sent => (sends s sent).1.2.1
  simpa (disch := exact NoReturn.ofList rfl) [noReturn_literal, conformanceCode, addressFunction,
    noReturns_listFunction, noReturns_dispatchFunction, typeName] using ⟨ofQueries, ofSends⟩

include names idents

theorem noReturns_classFunctions : ∀ item ∈ classFunctions c, NoReturns item := by
  simp only [Binding.Class.commentNames, List.forall_mem_append, List.forall_mem_map] at names
  obtain ⟨⟨-, methods⟩, messages⟩ := names
  simp only [Binding.Class.idents, List.forall_mem_append, List.forall_mem_cons,
    List.forall_mem_flatMap] at idents
  obtain ⟨⟨-, queries⟩, sends⟩ := idents
  simp only [classFunctions, List.forall_mem_append, List.forall_mem_map, List.forall_mem_flatMap,
    List.forall_mem_cons]
  refine ⟨⟨⟨⟨⟨?_, ?_, List.forall_mem_nil _⟩, ?_⟩, ?_⟩, ?_⟩, ?_⟩
  · simp (disch := exact NoReturn.ofList rfl) [noReturn_literal]
  · simp (disch := exact NoReturn.ofList rfl) [noReturn_literal, addressFunction]
  · exact fun q listed => noReturns_queryFunction (methods q listed) (queries q listed)
  · exact fun s sent => noReturns_sendFunction (messages s sent) (sends s sent)
  · exact fun q listed => noReturns_queryProbes (methods q listed) (queries q listed)
  · exact fun s sent => noReturns_sendProbe (messages s sent) (sends s sent)

/-- The code of a class has no carriage return if none of its texts has one. -/
theorem noReturns_classCode : NoReturns (classCode c) := by
  have header := noReturns_classHeader names
  have functions := noReturns_classFunctions names idents
  have conformance := noReturns_conformanceCode idents
  have imports : NoReturns (importLines Binding.classImports) :=
    noReturns_importLines
      (by simp (disch := exact NoReturn.ofList rfl) [noReturn_literal, Binding.classImports])
  simp only [Binding.Class.commentNames, List.forall_mem_append, List.forall_mem_cons,
    List.forall_mem_map] at names
  obtain ⟨⟨⟨⟨⟨interface, -⟩, -⟩, -⟩, methods⟩, -⟩ := names
  simp only [Binding.Class.idents, List.forall_mem_append, List.forall_mem_cons,
    List.forall_mem_flatMap] at idents
  obtain ⟨⟨typeName, queries⟩, -⟩ := idents
  have results : ∀ q ∈ c.queries, ∀ item ∈ resultType q, NoReturns item := fun q listed =>
    noReturns_resultType (methods q listed) (queries q listed)
  simp only [classCode, noReturns_append, noReturns_spaced, List.forall_mem_flatMap,
    List.forall_mem_cons]
  refine ⟨⟨⟨⟨header, ?_⟩, imports⟩, results⟩, ?_, ?_, conformance, List.forall_mem_nil _⟩
  · simp (disch := exact NoReturn.ofList rfl) [noReturn_literal]
  · simp (disch := exact NoReturn.ofList rfl) [noReturn_literal, interface, typeName]
  · simpa (disch := exact NoReturn.ofList rfl) [noReturn_literal, interface, typeName]
      using functions

end classes

/-! ### Message bodies -/

theorem noReturns_dataTypeCode {d : DataType} (texts : ∀ text ∈ d.commentTexts, NoReturn text)
    (typeName : NoReturn d.typeName) (idents : ∀ f ∈ d.fields, NoReturn f.ident) :
    NoReturns (dataTypeCode d) := by
  simp only [DataType.commentTexts, List.forall_mem_cons] at texts
  obtain ⟨name, -, returnType, -⟩ := texts
  have type : NoReturns (bodyType d) := by
    have members := noReturns_memberLines idents .messageField
    unfold bodyType
    split
    · simp (disch := exact NoReturn.ofList rfl) [noReturn_literal, typeName]
    · simp (disch := exact NoReturn.ofList rfl) [noReturn_literal, typeName, members]
  have store : NoReturns (storeFunction d) := by
    have calls : ∀ f ∈ d.fields, NoReturn (storeCall f) := fun f field =>
      noReturn_storeCall (idents f field)
    simpa (disch := exact NoReturn.ofList rfl) [noReturn_literal, storeFunction] using calls
  have load : NoReturns (loadFunction d) := by
    unfold loadFunction
    dsimp only
    split
    · simp (disch := exact NoReturn.ofList rfl) [noReturn_literal]
    · simpa (disch := exact NoReturn.ofList rfl) [noReturn_literal] using idents
  have fixed : NoReturns toCellFunction ∧ NoReturns fromCellFunction := by
    simp (disch := exact NoReturn.ofList rfl) [noReturn_literal, toCellFunction, fromCellFunction]
  simp (disch := exact NoReturn.ofList rfl) [noReturn_literal, dataTypeCode, name, returnType,
    typeName, type, store, load, fixed]

/-- The code of message bodies has no carriage return if none of their texts has one. -/
theorem noReturns_messagesCode {types : List DataType}
    (clean : ∀ d ∈ types, (∀ text ∈ d.commentTexts, NoReturn text) ∧ NoReturn d.typeName ∧
      ∀ f ∈ d.fields, NoReturn f.ident) : NoReturns (messagesCode types) := by
  have header := noReturns_fileHeader (.ofList rfl : NoReturn "Internal message bodies.")
  have imports : NoReturns (importLines Binding.messageImports) :=
    noReturns_importLines
      (by simp (disch := exact NoReturn.ofList rfl) [noReturn_literal, Binding.messageImports])
  have bodies : ∀ d ∈ types, NoReturns (dataTypeCode d) := by
    intro d listed
    obtain ⟨texts, typeName, idents⟩ := clean d listed
    exact noReturns_dataTypeCode texts typeName idents
  simpa (disch := exact NoReturn.ofList rfl) [noReturn_literal, messagesCode, header, imports]
    using bodies

/-! ### The registry -/

/-- There is no carriage return in the registry's code. -/
theorem noReturns_registryCode {m : Model}
    (clean : ∀ c ∈ m.classes, NoReturn c.moduleName ∧ NoReturn c.typeName) :
    NoReturns (registryCode m) := by
  have header :=
    noReturns_fileHeader (.ofList rfl : NoReturn "Interface name to binding factory registration.")
  have entries : ∀ c ∈ m.registration.filterMap m.class?, NoReturns (registration c) := by
    intro c listed
    obtain ⟨interface, -, found⟩ := List.mem_filterMap.mp listed
    obtain ⟨moduleName, typeName⟩ := clean c (List.mem_of_find?_eq_some found)
    simp (disch := exact NoReturn.ofList rfl) [noReturn_literal, registration, moduleName, typeName]
  simpa (disch := exact NoReturn.ofList rfl) [noReturn_literal, registryCode, header,
    noReturns_flatMap] using entries

theorem noReturns_indexCode {m : Model}
    (clean : ∀ c ∈ m.classes, NoReturn c.moduleName ∧ NoReturn c.typeName) :
    NoReturns (indexCode m) := by
  have header := noReturns_fileHeader (.ofList rfl : NoReturn "Generated contract bindings.")
  have modules : ∀ c ∈ m.classes, NoReturn c.moduleName := fun c member => (clean c member).1
  simpa (disch := exact NoReturn.ofList rfl) [noReturn_literal, indexCode, exportLines, header]
    using ⟨modules, clean⟩

/-! ### The files of a description -/

theorem noReturn_indented (depth : Nat) {content : String} (clean : NoReturn content) :
    NoReturn (indented depth content) := by
  unfold indented
  split
  · exact .ofList rfl
  · refine noReturn_append.mpr ⟨?_, clean⟩
    intro c among
    rw [String.toList_ofList] at among
    rw [List.eq_of_mem_replicate among]
    decide

theorem noReturn_layout {ls : List Line} (clean : NoReturns ls) (depth : Nat) :
    ∀ line ∈ layout depth ls, NoReturn line := by
  induction ls generalizing depth with
  | nil => exact List.forall_mem_nil _
  | cons l ls ih =>
    obtain ⟨first, others⟩ := noReturns_cons.mp clean
    exact List.forall_mem_cons.mpr ⟨noReturn_indented _ first, ih others _⟩

theorem noReturn_ofLines {lines : List String} (clean : ∀ line ∈ lines, NoReturn line) :
    NoReturn (ofLines lines) := by
  refine noReturn_join (List.forall_mem_map.mpr ?_)
  intro line listed
  exact noReturn_append.mpr ⟨clean line listed, .ofList rfl⟩

/-- A description without carriage returns gives files without them. -/
theorem noReturn_files {doc : Document} (clean : ∀ text ∈ doc.strings, NoReturn text) :
    ∀ f ∈ (Package.ofDocument doc).files, NoReturn f.source := by
  have files {ls : List Line} (lines : NoReturns ls) : NoReturn (render ls) :=
    noReturn_ofLines (noReturn_layout lines 0)
  have named := Model.wellNamed_ofDocument doc
  have modules : ∀ c ∈ (Model.ofDocument doc).classes,
      NoReturn c.moduleName ∧ NoReturn c.typeName := by
    intro c member
    exact ⟨noReturn_of_isIdentifier
        (Model.isModuleName_of_mem (List.mem_map_of_mem member)).escaped.isIdentifier,
      noReturn_of_isIdentifier (named.classes.legal _ (List.mem_map_of_mem member))⟩
  have classes : ∀ c ∈ (Model.ofDocument doc).classes, NoReturns (classCode c) := by
    intro c member
    refine noReturns_classCode ?_ ?_
    · exact fun name listed => clean name (Model.commentNames_subset member listed)
    · exact fun name listed =>
        noReturn_of_isIdentifier (Model.isIdentifier_of_mem_idents member name listed)
  have types : NoReturns (messagesCode (Model.ofDocument doc).dataTypes) := by
    refine noReturns_messagesCode fun d listed => ⟨?_, ?_, ?_⟩
    · exact fun text inside => clean text (Model.commentTexts_subset listed inside)
    · exact noReturn_of_isIdentifier (named.dataTypes.legal _ (List.mem_map_of_mem listed))
    · exact fun f field =>
        noReturn_of_isIdentifier ((named.fields d listed).legal _ (List.mem_map_of_mem field))
  simp only [Package.files, Package.ofDocument, Package.ofModel, List.map_map,
    List.forall_mem_append, List.forall_mem_map, List.forall_mem_cons]
  exact ⟨fun c member => files (classes c member), files types,
    files (noReturns_registryCode modules), files (noReturns_indexCode modules),
    List.forall_mem_nil _⟩

end ContractAbi.Code
