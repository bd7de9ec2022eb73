import ContractAbi.Proofs.Code.Plain
import ContractAbi.Proofs.Code.SameCode

/-!
# What the names of a description do to generated code

The file of an interface shows the names that its description uses in two ways: quoted, and as they
are in comments. Other names of the same number change no code, for identifiers are kept and quoting
leaves nothing that could end a literal (`skeleton_classCode_of_renamed`). That is so as long as the
names that stand in comments have no line ends. Nothing removes these, and behind a line end the
rest of a name is code (`skeleton_classCode_lineEnd`).
-/

namespace ContractAbi

namespace Binding

/-- The same query of a get-method of any name. -/
def Query.Renamed (q r : Query) : Prop := ∃ method, r = { q with method }

/-- The same send of a message of any name. -/
def Send.Renamed (s t : Send) : Prop := ∃ message, t = { s with message }

/-- The same class with any other names of its description, as many as before. -/
structure Class.Renamed (c d : Class) : Prop where
  typeName : d.typeName = c.typeName
  moduleName : d.moduleName = c.moduleName
  fingerprint : d.fingerprint.isSome = c.fingerprint.isSome
  lineage : d.lineage.length = c.lineage.length
  queries : List.Forall₂ Query.Renamed c.queries d.queries
  sends : List.Forall₂ Send.Renamed c.sends d.sends
  outbound : d.outbound.length = c.outbound.length

/-- The names that stand in the comments of a class. -/
def Class.commentNames (c : Class) : List String :=
  c.interface :: c.lineage.tail ++ c.fingerprint.toList ++ c.outbound ++
    c.queries.map (·.method) ++ c.sends.map (·.message)

end Binding

namespace Code

open Binding (Model Query Send)
open Text.Quoted (quote)

/-- A comment around a name. -/
theorem sameLine_around {front back a b : String} (comment : IsComment front)
    (oneLine : OneLine back) (left : OneLine a) (right : OneLine b) :
    SameLine (.text (front ++ a ++ back)) (.text (front ++ b ++ back)) :=
  .comment ((comment.append left).append oneLine) ((comment.append right).append oneLine)

/-! ### Queries -/

/-- A query and the same query of another method, where no line ends in either name. -/
structure SameQuery (q r : Query) : Prop where
  plain : PlainQuery q
  renamed : q.Renamed r
  left : OneLine q.method
  right : OneLine r.method

section queries

variable {q r : Query}

theorem sameLines_resultType (same : SameQuery q r) :
    List.Forall₂ SameLines (resultType q) (resultType r) := by
  obtain ⟨plain, ⟨method, rfl⟩, left, right⟩ := same
  have record := plain.record
  have outputs := plain.outputs
  unfold resultType
  cases result : q.result with
  | unit | single => exact .nil
  | record typeName fields =>
    rw [result] at record outputs
    have comment : SameLine (.text ("/// Result of `" ++ q.method ++ "`, in stack order.")) _ :=
      sameLine_around (.ofList (by decide) (by decide)) (.ofList (by decide)) left right
    have derived : SameLine (.text "#[derive(Debug, Clone, PartialEq)]") _ :=
      .text (.of_isPlain (.ofList (by decide)))
    have type : IsPlain ("pub struct " ++ typeName) :=
      .append (.ofList (by decide)) (record typeName rfl)
    have members := SameLines.texts_of_isPlain (isPlain_memberLines outputs .queryOutput)
    exact .cons (.append (.cons comment (.cons derived .nil))
      (members.block type (.ofList (by decide)))) .nil

theorem isPlain_resultTypeName (plain : PlainQuery q) : IsPlain (resultTypeName q.result) := by
  have record := plain.record
  unfold resultTypeName
  cases result : q.result with
  | unit => exact .ofList (by decide)
  | single field => exact isPlain_hostType _
  | record typeName fields =>
    rw [result] at record
    exact record typeName rfl

theorem sameLines_queryBody (same : SameQuery q r) : SameLines (queryBody q) (queryBody r) := by
  obtain ⟨plain, ⟨method, rfl⟩, -, -⟩ := same
  have record := plain.record
  have outputs := plain.outputs
  have quoted : SameText (quote q.method) (quote method) := .quote ..
  have values : IsPlain (", ".intercalate
      (q.inputs.map fun f => "WireValue::from(" ++ f.ident ++ ")")) := by
    refine isPlain_intercalate ?_
    intro value listed
    obtain ⟨f, input, rfl⟩ := List.mem_map.mp listed
    exact .append (.append (.ofList (by decide)) (plain.inputs f input)) (.ofList (by decide))
  have call : SameText ("invoke_query(self.runtime.as_ref(), &self.address, " ++ quote q.method ++
      ", vec![" ++ ", ".intercalate (q.inputs.map fun f => "WireValue::from(" ++ f.ident ++ ")") ++
        "]).await?") _ :=
    ((quoted.around (.ofList (by decide)) (.ofList (by decide))).append
      (.of_isPlain values)).append (.of_isPlain (.ofList (by decide)))
  have stack : SameText ("let mut stack = " ++ _ ++ ";") _ :=
    call.around (.ofList (by decide)) (.ofList (by decide))
  unfold queryBody
  cases result : q.result with
  | unit =>
    have statement := call.append (.of_isPlain (.ofList (by decide) : IsPlain ";"))
    have done : SameText "Ok(())" _ := .of_isPlain (.ofList (by decide))
    exact .texts (.cons statement (.cons done .nil))
  | single field =>
    have reader : IsPlain ("let value = stack." ++ readerMethod field.category ++
        "().map_err(|e| BindingError::shape(") :=
      .append (.append (.ofList (by decide)) (isPlain_readerMethod _)) (.ofList (by decide))
    have value := quoted.around reader (.ofList (by decide) : IsPlain ", e))?;")
    have done : SameText "Ok(value)" _ := .of_isPlain (.ofList (by decide))
    exact .texts (.cons stack (.cons value (.cons done .nil)))
  | record typeName fields =>
    rw [result] at record outputs
    have shape : SameText ("let shape = |e| BindingError::shape(" ++ quote q.method ++ ", e);") _ :=
      quoted.around (.ofList (by decide)) (.ofList (by decide))
    have reads : ∀ line ∈ fields.map fun f =>
        f.ident ++ ": stack." ++ readerMethod f.category ++ "().map_err(shape)?,",
          IsPlain line := by
      intro line listed
      obtain ⟨f, output, rfl⟩ := List.mem_map.mp listed
      exact .append (.append (.append (outputs f output) (.ofList (by decide)))
        (isPlain_readerMethod _)) (.ofList (by decide))
    have type : IsPlain ("Ok(" ++ typeName) := .append (.ofList (by decide)) (record typeName rfl)
    exact .append (.texts (.cons stack (.cons shape .nil)))
      ((SameLines.texts_of_isPlain reads).block type (.ofList (by decide)))

/-- The function of a query differs under another name of its method in a literal and comments
alone. -/
theorem sameLines_queryFunction (same : SameQuery q r) :
    SameLines (queryFunction q) (queryFunction r) := by
  have inside := sameLines_queryBody same
  obtain ⟨plain, ⟨method, rfl⟩, left, right⟩ := same
  have comment : SameLine (.text ("/// Calls get-method `" ++ q.method ++ "`.")) _ :=
    sameLine_around (.ofList (by decide) (by decide)) (.ofList (by decide)) left right
  have header : IsPlain ("pub async fn " ++ q.ident ++ "(&self" ++
      parameters q.inputs .queryInput ++ ") -> Result<" ++ resultTypeName q.result ++
        ", BindingError>") :=
    .append (.append (.append (.append (.append (.append (.ofList (by decide)) plain.ident)
      (.ofList (by decide))) (isPlain_parameters plain.inputs _)) (.ofList (by decide)))
        (isPlain_resultTypeName plain)) (.ofList (by decide))
  exact .cons comment (inside.block header (.ofList (by decide)))

end queries

/-! ### Sends -/

/-- A send and the same send of another message, where no line ends in either name. -/
structure SameSend (s t : Send) : Prop where
  plain : PlainSend s
  renamed : s.Renamed t
  left : OneLine s.message
  right : OneLine t.message

section sends

variable {s t : Send}

theorem oneLine_opcode (op : Opcode) : OneLine op.text := by
  refine oneLine_append.mpr ⟨.ofList (by decide), ?_⟩
  rintro c among rfl
  exact absurd (List.all_eq_true.mp op.isHex _ among) (by decide)

/-- The function of a message differs under another name in literals and comments alone. -/
theorem sameLines_sendFunction (same : SameSend s t) :
    SameLines (sendFunction s) (sendFunction t) := by
  obtain ⟨plain, ⟨message, rfl⟩, left, right⟩ := same
  have quoted : SameText (quote s.message) (quote message) := .quote ..
  have front : IsComment "/// Sends internal message `" := .ofList (by decide) (by decide)
  have comment {name : String} (oneLine : OneLine name) : IsComment
      ("/// Sends internal message `" ++ name ++ "` (opcode `" ++ s.body.opcode.text ++ "`).") :=
    (((front.append oneLine).append (.ofList (by decide))).append (oneLine_opcode _)).append
      (.ofList (by decide))
  have value : IsPlain (if s.body.fields.isEmpty then "\x7b\x7d"
      else "\x7b " ++ arguments s.body.fields ++ " \x7d") := by
    split
    · exact .ofList (by decide)
    · exact .append (.append (.ofList (by decide)) (isPlain_arguments plain.fields))
        (.ofList (by decide))
  have body : SameText ("let body = super::messages::" ++ s.body.typeName ++ " " ++ _ ++ ";") _ :=
    .of_isPlain (.append (.append (.append (.append (.ofList (by decide)) plain.body)
      (.ofList (by decide))) value) (.ofList (by decide)))
  have payload : SameText ("let payload = body.to_cell().map_err(|e| BindingError::payload(" ++
      quote s.message ++ ", e))?;") _ := quoted.around (.ofList (by decide)) (.ofList (by decide))
  have dispatch : SameText ("dispatch_message(self.runtime.as_ref(), &self.address, " ++
      quote s.message ++ ", payload).await") _ :=
    quoted.around (.ofList (by decide)) (.ofList (by decide))
  have header : IsPlain ("pub async fn " ++ s.ident ++ "(&self" ++
      parameters s.body.fields .messageField ++ ") -> Result<SendOutcome, BindingError>") :=
    .append (.append (.append (.append (.ofList (by decide)) plain.ident) (.ofList (by decide)))
      (isPlain_parameters plain.fields _)) (.ofList (by decide))
  have inside := SameLines.texts (.cons body (.cons payload (.cons dispatch .nil)))
  exact .cons (.comment (comment left) (comment right)) (inside.block header (.ofList (by decide)))

end sends

/-! ### Probes -/

/-- The probe of a method or a message has a name in its comment alone. -/
theorem sameLines_probeFunction {a b ident params : String} {body : List String}
    (left : OneLine a) (right : OneLine b) (plainIdent : IsPlain ident)
    (plainParams : IsPlain params) (plainBody : ∀ line ∈ body, IsPlain line) :
    SameLines (probeFunction a ident params body) (probeFunction b ident params body) := by
  have mark : IsComment "/// " := .ofList (by decide) (by decide)
  have header : IsPlain ("pub async fn " ++ ident ++ "(&self" ++ params ++
      ") -> Result<(), ProbeFailure>") :=
    .append (.append (.append (.append (.ofList (by decide)) plainIdent) (.ofList (by decide)))
      plainParams) (.ofList (by decide))
  exact .cons (.comment (mark.append left) (mark.append right))
    ((SameLines.texts_of_isPlain plainBody).block header (.ofList (by decide)))

theorem oneLine_around {front back name : String} (before : OneLine front) (behind : OneLine back)
    (oneLine : OneLine name) : OneLine (front ++ name ++ back) :=
  oneLine_append.mpr ⟨oneLine_append.mpr ⟨before, oneLine⟩, behind⟩

/-- A probe does something and drops what it gives. -/
theorem isPlain_dropping {line : String} (plain : IsPlain line) :
    ∀ l ∈ [line, "Ok(())"], IsPlain l := by
  have done : IsPlain "Ok(())" := .ofList (by decide)
  simp only [List.forall_mem_cons]
  exact ⟨plain, done, List.forall_mem_nil _⟩

theorem isPlain_probeBody {ident args : String} (plainIdent : IsPlain ident)
    (plainArgs : IsPlain args) :
    ∀ line ∈ ["self." ++ ident ++ "(" ++ args ++ ").await?;", "Ok(())"], IsPlain line := by
  apply isPlain_dropping
  exact .append (.append (.append (.append (.ofList (by decide)) plainIdent) (.ofList (by decide)))
    plainArgs) (.ofList (by decide))

theorem isPlain_bareProbeBody {ident : String} (plainIdent : IsPlain ident) :
    ∀ line ∈ ["self." ++ ident ++ "().await?;", "Ok(())"], IsPlain line := by
  apply isPlain_dropping
  exact .append (.append (.ofList (by decide)) plainIdent) (.ofList (by decide))

/-- A probe that takes no arguments gives the defaults to the one that takes them. -/
theorem isPlain_defaultProbeBody {ident args : String} (plainIdent : IsPlain ident)
    (plainArgs : IsPlain args) :
    ∀ line ∈ ["self." ++ ident ++ "(" ++ args ++ ").await"], IsPlain line := by
  have call : IsPlain ("self." ++ ident ++ "(" ++ args ++ ").await") :=
    .append (.append (.append (.append (.ofList (by decide)) plainIdent) (.ofList (by decide)))
      plainArgs) (.ofList (by decide))
  simp only [List.forall_mem_cons]
  exact ⟨call, List.forall_mem_nil _⟩

theorem sameLines_queryProbes {q r : Query} (same : SameQuery q r) :
    List.Forall₂ SameLines (queryProbes q) (queryProbes r) := by
  obtain ⟨plain, ⟨method, rfl⟩, left, right⟩ := same
  have probes : OneLine "Probes `" := .ofList (by decide)
  have noParameters : IsPlain "" := .ofList (by decide)
  unfold queryProbes
  cases given : q.probeWithIdent with
  | none =>
    have behind : OneLine "`." := .ofList (by decide)
    exact .cons (sameLines_probeFunction (oneLine_around probes behind left)
      (oneLine_around probes behind right) plain.probeIdent noParameters
      (isPlain_bareProbeBody plain.ident)) .nil
  | some withIdent =>
    have probeWith : IsPlain withIdent := by
      refine plain.functions _ (List.mem_append_right _ ?_)
      rw [given]
      exact List.mem_singleton_self withIdent
    have defaults : OneLine "` with default arguments." := .ofList (by decide)
    have supplied : OneLine "` with caller-supplied arguments." := .ofList (by decide)
    exact .cons (sameLines_probeFunction (oneLine_around probes defaults left)
        (oneLine_around probes defaults right) plain.probeIdent noParameters
        (isPlain_defaultProbeBody probeWith (isPlain_defaultArguments _ _)))
      (.cons (sameLines_probeFunction (oneLine_around probes supplied left)
        (oneLine_around probes supplied right) probeWith (isPlain_parameters plain.inputs _)
        (isPlain_probeBody plain.ident (isPlain_arguments plain.inputs))) .nil)

theorem sameLines_sendProbe {s t : Send} (same : SameSend s t) :
    SameLines (sendProbe s) (sendProbe t) := by
  obtain ⟨plain, ⟨message, rfl⟩, left, right⟩ := same
  have sends : OneLine "Sends `" := .ofList (by decide)
  have behind : OneLine "` with default field values; only dispatch is checked." :=
    .ofList (by decide)
  exact sameLines_probeFunction (oneLine_around sends behind left)
    (oneLine_around sends behind right) plain.probeIdent (.ofList (by decide))
    (isPlain_probeBody plain.ident (isPlain_defaultArguments _ _))

/-! ### The list of all probes -/

theorem sameLines_addressFunction {start : String} (plain : IsPlain start) :
    SameLines (addressFunction start) (addressFunction start) := by
  have body : SameText "&self.address" _ := .of_isPlain (.ofList (by decide))
  have header : IsPlain (start ++ "fn address(&self) -> &Address") :=
    plain.append (.ofList (by decide))
  exact .block header (.ofList (by decide)) (.cons (.text body) .nil)

/-- Lists of names are the same code, whatever is quoted in them. -/
theorem sameLines_listFunction {name : String} (plain : IsPlain name) {xs ys : List String}
    (quoted : List.Forall₂ SameText (xs.map quote) (ys.map quote)) :
    SameLines (listFunction name xs) (listFunction name ys) := by
  have list : SameText ("vec![" ++ ", ".intercalate (xs.map quote) ++ "]") _ :=
    (SameText.intercalate isPlain_comma quoted).around (.ofList (by decide)) (.ofList (by decide))
  have header : IsPlain ("fn " ++ name ++ "(&self) -> Vec<&str>") :=
    .append (.append (.ofList (by decide)) plain) (.ofList (by decide))
  exact .block header (.ofList (by decide)) (.cons (.text list) .nil)

/-- Names that run the same probe. -/
def SameProbe (p q : String × String) : Prop := p.2 = q.2 ∧ IsPlain p.2

/-- So is the match on names by which a probe is found. -/
theorem sameLines_dispatchFunction {name parameter : String} (plain : IsPlain name)
    (plainParameter : IsPlain parameter) {xs ys : List (String × String)}
    (same : List.Forall₂ SameProbe xs ys) :
    SameLines (dispatchFunction name parameter xs) (dispatchFunction name parameter ys) := by
  have arms : List.Forall₂ SameText (xs.map fun p => quote p.1 ++ " => self." ++ p.2 ++ "().await,")
      (ys.map fun p => quote p.1 ++ " => self." ++ p.2 ++ "().await,") := by
    refine List.rel_map ?_ same
    rintro ⟨left, ident⟩ ⟨right, -⟩ ⟨rfl, probe⟩
    exact (((SameText.quote left right).append (.of_isPlain (.ofList (by decide)))).append
      (.of_isPlain probe)).append (.of_isPlain (.ofList (by decide)))
  have other : SameText "other => Err(ProbeFailure::UnknownProbe(other.to_string()))," _ :=
    .of_isPlain (.ofList (by decide))
  have header : IsPlain ("async fn " ++ name ++ "(&self, " ++ parameter ++
      ": &str) -> Result<(), ProbeFailure>") :=
    .append (.append (.append (.append (.ofList (by decide)) plain) (.ofList (by decide)))
      plainParameter) (.ofList (by decide))
  have choice : IsPlain ("match " ++ parameter) := .append (.ofList (by decide)) plainParameter
  have lines := SameLines.texts (List.rel_append arms (.cons other .nil))
  exact .block header (.ofList (by decide)) (lines.block choice (.ofList (by decide)))

/-! ### Classes -/

/-- A class and the same class under other names, where no line ends in a name that stands in a
comment. -/
structure SameClass (c d : Binding.Class) : Prop where
  plain : PlainClass c
  renamed : c.Renamed d
  left : ∀ name ∈ c.commentNames, OneLine name
  right : ∀ name ∈ d.commentNames, OneLine name

/-- A relation between lists, with what holds on its two sides. -/
theorem forall₂_and {α β : Type} {r : α → β → Prop} {f : α → Prop} {g : β → Prop} {xs : List α}
    {ys : List β} (related : List.Forall₂ r xs ys) (left : ∀ x ∈ xs, f x) (right : ∀ y ∈ ys, g y) :
    List.Forall₂ (fun x y => f x ∧ r x y ∧ g y) xs ys := by
  induction related with
  | nil => exact .nil
  | cons first _ ih =>
    obtain ⟨here, left⟩ := List.forall_mem_cons.mp left
    obtain ⟨there, right⟩ := List.forall_mem_cons.mp right
    exact .cons ⟨here, first, there⟩ (ih left right)

variable {c d : Binding.Class}

namespace SameClass

theorem queries (same : SameClass c d) : List.Forall₂ SameQuery c.queries d.queries := by
  have named {e : Binding.Class} {q : Query} (listed : q ∈ e.queries) : q.method ∈ e.commentNames :=
    List.mem_append_left _ (List.mem_append_right _ (List.mem_map_of_mem listed))
  have left : ∀ q ∈ c.queries, PlainQuery q ∧ OneLine q.method := by
    intro q listed
    exact ⟨same.plain.queries q listed, same.left _ (named listed)⟩
  have right : ∀ r ∈ d.queries, OneLine r.method := by
    intro r listed
    exact same.right _ (named listed)
  refine (forall₂_and same.renamed.queries left right).imp ?_
  rintro q r ⟨⟨plain, left⟩, renamed, right⟩
  exact ⟨plain, renamed, left, right⟩

theorem sends (same : SameClass c d) : List.Forall₂ SameSend c.sends d.sends := by
  have named {e : Binding.Class} {s : Send} (sent : s ∈ e.sends) : s.message ∈ e.commentNames :=
    List.mem_append_right _ (List.mem_map_of_mem sent)
  have left : ∀ s ∈ c.sends, PlainSend s ∧ OneLine s.message := by
    intro s sent
    exact ⟨same.plain.sends s sent, same.left _ (named sent)⟩
  have right : ∀ t ∈ d.sends, OneLine t.message := by
    intro t sent
    exact same.right _ (named sent)
  refine (forall₂_and same.renamed.sends left right).imp ?_
  rintro s t ⟨⟨plain, left⟩, renamed, right⟩
  exact ⟨plain, renamed, left, right⟩

theorem queryNames (same : SameClass c d) : List.Forall₂ SameText
    ((c.queries.map (·.method)).map quote) ((d.queries.map (·.method)).map quote) := by
  rw [List.map_map, List.map_map]
  exact List.rel_map (fun _ _ _ => .quote ..) same.queries

theorem sendNames (same : SameClass c d) : List.Forall₂ SameText
    ((c.sends.map (·.message)).map quote) ((d.sends.map (·.message)).map quote) := by
  rw [List.map_map, List.map_map]
  exact List.rel_map (fun _ _ _ => .quote ..) same.sends

theorem queryProbes (same : SameClass c d) : List.Forall₂ SameProbe
    (c.queries.map fun q => (q.method, q.probeIdent))
    (d.queries.map fun q => (q.method, q.probeIdent)) := by
  refine List.rel_map ?_ same.queries
  rintro q _ ⟨plain, ⟨method, rfl⟩, -, -⟩
  exact ⟨rfl, plain.probeIdent⟩

theorem sendProbes (same : SameClass c d) : List.Forall₂ SameProbe
    (c.sends.map fun s => (s.message, s.probeIdent))
    (d.sends.map fun s => (s.message, s.probeIdent)) := by
  refine List.rel_map ?_ same.sends
  rintro s _ ⟨plain, ⟨message, rfl⟩, -, -⟩
  exact ⟨rfl, plain.probeIdent⟩

end SameClass

/-- The checks of a class differ in literals and comments alone. -/
theorem sameLines_conformanceCode (same : SameClass c d) :
    SameLines (conformanceCode c) (conformanceCode d) := by
  have functions : List.Forall₂ SameLines
      [addressFunction "", listFunction "query_probes" (c.queries.map (·.method)),
        listFunction "send_probes" (c.sends.map (·.message)),
        dispatchFunction "run_query_probe" "method"
          (c.queries.map fun q => (q.method, q.probeIdent)),
        dispatchFunction "run_send_probe" "message"
          (c.sends.map fun s => (s.message, s.probeIdent))] _ :=
    .cons (sameLines_addressFunction (.ofList (by decide)))
      (.cons (sameLines_listFunction (.ofList (by decide)) same.queryNames)
        (.cons (sameLines_listFunction (.ofList (by decide)) same.sendNames)
          (.cons (sameLines_dispatchFunction (.ofList (by decide)) (.ofList (by decide))
              same.queryProbes)
            (.cons (sameLines_dispatchFunction (.ofList (by decide)) (.ofList (by decide))
                same.sendProbes)
              .nil))))
  have interface : SameText "Self::INTERFACE" _ := .of_isPlain (.ofList (by decide))
  have nameFunction : SameLines
      (block "fn interface_name(&self) -> &str" [.text "Self::INTERFACE"] "") _ :=
    .block (.ofList (by decide)) (.ofList (by decide)) (.cons (.text interface) .nil)
  have mark : SameText "#[ton_abi_probe::async_trait]" _ := .of_isPlain (.ofList (by decide))
  have header : IsPlain ("impl ConformanceTarget for " ++ c.typeName) :=
    .append (.ofList (by decide)) same.plain.typeName
  unfold conformanceCode
  rw [same.renamed.typeName]
  exact .cons (.text mark) ((nameFunction.append (SameLines.spaced functions)).block header
    (.ofList (by decide)))

theorem sameLines_classFunctions (same : SameClass c d) :
    List.Forall₂ SameLines (classFunctions c) (classFunctions d) := by
  have fields : SameText "Self \x7b address, runtime \x7d" _ := .of_isPlain (.ofList (by decide))
  have new : SameLines
      (block "pub fn new(address: Address, runtime: Arc<dyn ContractRuntime>) -> Self"
        [.text "Self \x7b address, runtime \x7d"] "") _ :=
    .block (.ofList (by decide)) (.ofList (by decide)) (.cons (.text fields) .nil)
  have address := sameLines_addressFunction (.ofList (by decide) : IsPlain "pub ")
  have queries := List.rel_map (fun _ _ pair => sameLines_queryFunction pair) same.queries
  have sends := List.rel_map (fun _ _ pair => sameLines_sendFunction pair) same.sends
  have queryProbes := List.rel_flatMap same.queries fun _ _ pair => sameLines_queryProbes pair
  have sendProbes := List.rel_map (fun _ _ pair => sameLines_sendProbe pair) same.sends
  exact List.rel_append (List.rel_append (List.rel_append (List.rel_append
    (.cons new (.cons address .nil)) queries) sends) queryProbes) sendProbes

/-! ### The comment at the start of the file -/

/-- The line is a comment. -/
def IsCommentLine (l : Line) : Prop := ∃ text, l = .text text ∧ IsComment text

/-- Comments of the same number of lines are the same code. -/
theorem sameLines_of_isCommentLine {ls ms : List Line} (left : ∀ l ∈ ls, IsCommentLine l)
    (right : ∀ m ∈ ms, IsCommentLine m) (length : ls.length = ms.length) : SameLines ls ms := by
  induction ls generalizing ms with
  | nil =>
    cases List.eq_nil_of_length_eq_zero length.symm
    exact .nil
  | cons l ls ih =>
    cases ms with
    | nil => cases length
    | cons m ms =>
      obtain ⟨⟨a, rfl, first⟩, others⟩ := List.forall_mem_cons.mp left
      obtain ⟨⟨b, rfl, second⟩, others'⟩ := List.forall_mem_cons.mp right
      exact .cons (.comment first second) (ih others others' (Nat.succ.inj length))

theorem isCommentLine_texts {contents : List String} (comments : ∀ text ∈ contents, IsComment text) :
    ∀ l ∈ texts contents, IsCommentLine l := by
  intro l among
  obtain ⟨text, listed, rfl⟩ := List.mem_map.mp among
  exact ⟨text, rfl, comments text listed⟩

theorem isComment_mark : IsComment "//!" := .ofList (by decide) (by decide)

theorem isCommentLine_fileHeader {summary : String} (oneLine : OneLine summary) :
    ∀ l ∈ fileHeader summary, IsCommentLine l := by
  have first : IsComment ("//! " ++ summary) := .append (.ofList (by decide) (by decide)) oneLine
  have generated : IsComment ("//! Generated by " ++ generator ++ ". Do not edit manually.") :=
    .append (.append (.ofList (by decide) (by decide)) (.ofList (by decide))) (.ofList (by decide))
  apply isCommentLine_texts
  simp only [List.forall_mem_cons]
  exact ⟨first, isComment_mark, generated, List.forall_mem_nil _⟩

theorem isCommentLine_classHeader (lines : ∀ name ∈ c.commentNames, OneLine name) :
    ∀ l ∈ classHeader c, IsCommentLine l := by
  simp only [Binding.Class.commentNames, List.forall_mem_append, List.forall_mem_cons] at lines
  obtain ⟨⟨⟨⟨⟨interface, lineage⟩, fingerprint⟩, outbound⟩, -⟩, -⟩ := lines
  have summary : OneLine ("Binding for the `" ++ c.interface ++ "` interface.") :=
    oneLine_around (.ofList (by decide)) (.ofList (by decide)) interface
  refine List.forall_mem_append.mpr ⟨isCommentLine_fileHeader summary, isCommentLine_texts ?_⟩
  simp only [List.forall_mem_append]
  refine ⟨⟨?inherits, ?hash⟩, ?emits⟩
  case inherits =>
    generalize c.lineage = names at lineage
    match names with
    | [] | [_] => exact List.forall_mem_nil _
    | own :: parent :: others =>
      have ancestors : IsComment ("//! Inherits: " ++ " -> ".intercalate (parent :: others)) :=
        .append (.ofList (by decide) (by decide))
          (forall_mem_intercalate (OneLine.ofList (by decide)) lineage)
      simp only [List.forall_mem_cons]
      exact ⟨isComment_mark, ancestors, List.forall_mem_nil _⟩
  case hash =>
    cases given : c.fingerprint with
    | none => exact List.forall_mem_nil _
    | some hash =>
      have oneLine : OneLine hash := fingerprint hash (by simp [given])
      have code : IsComment ("//! Code hash: `" ++ hash ++ "`") :=
        .append (.append (.ofList (by decide) (by decide)) oneLine) (.ofList (by decide))
      exact List.forall_mem_singleton.mpr code
  case emits =>
    by_cases none : c.outbound.isEmpty
    · rw [if_pos none]
      exact List.forall_mem_nil _
    · have emits : IsComment ("//! Emits: " ++ ", ".intercalate c.outbound) :=
        .append (.ofList (by decide) (by decide))
          (forall_mem_intercalate isPlain_comma.oneLine outbound)
      rw [if_neg none]
      exact List.forall_mem_singleton.mpr emits

/-- The number of names decides which of the comments there are. -/
theorem length_classHeader (c : Binding.Class) : (classHeader c).length =
    3 + (if c.lineage.length ≤ 1 then 0 else 2) + (if c.fingerprint.isSome then 1 else 0) +
      (if c.outbound.length = 0 then 0 else 1) := by
  unfold classHeader
  rcases c.lineage with _ | ⟨own, _ | ⟨parent, others⟩⟩ <;> rcases c.fingerprint with _ | hash <;>
    rcases c.outbound with _ | ⟨message, messages⟩ <;> simp [fileHeader, texts]

/-- The header of a class differs under other names in comments alone. -/
theorem sameLines_classHeader (same : SameClass c d) :
    SameLines (classHeader c) (classHeader d) := by
  refine sameLines_of_isCommentLine (isCommentLine_classHeader same.left)
    (isCommentLine_classHeader same.right) ?_
  rw [length_classHeader, length_classHeader, same.renamed.lineage, same.renamed.fingerprint,
    same.renamed.outbound]

/-! ### The whole file -/

/-- The code of a class and of the same class under other names, line by line. -/
theorem sameLines_classCode (same : SameClass c d) : SameLines (classCode c) (classCode d) := by
  have interface : OneLine c.interface := same.left _ (by simp [Binding.Class.commentNames])
  have interface' : OneLine d.interface := same.right _ (by simp [Binding.Class.commentNames])
  have allow : SameText
      "#![allow(unused_imports, non_camel_case_types, clippy::too_many_arguments)]" _ :=
    .of_isPlain (.ofList (by decide))
  have settings := List.Forall₂.cons SameLine.blank (.cons (.text allow) (.cons .blank .nil))
  have imports := SameLines.texts_of_isPlain isPlain_importLines
  have results := SameLines.spaced
    (List.rel_flatMap same.queries fun _ _ pair => sameLines_resultType pair)
  unfold classCode
  rw [same.renamed.typeName]
  refine ((((sameLines_classHeader same).append settings).append imports).append results).append
    (SameLines.spaced
      (.cons ?access (.cons ?functions (.cons (sameLines_conformanceCode same) .nil))))
  case access =>
    have comment : SameLine
        (.text ("/// Typed access to a contract implementing `" ++ c.interface ++ "`.")) _ :=
      sameLine_around (.ofList (by decide) (by decide)) (.ofList (by decide)) interface interface'
    have derived : SameText "#[derive(Clone)]" _ := .of_isPlain (.ofList (by decide))
    have address : SameText "address: Address," _ := .of_isPlain (.ofList (by decide))
    have runtime : SameText "runtime: Arc<dyn ContractRuntime>," _ :=
      .of_isPlain (.ofList (by decide))
    have members := SameLines.texts (.cons address (.cons runtime .nil))
    have type : IsPlain ("pub struct " ++ c.typeName) :=
      .append (.ofList (by decide)) same.plain.typeName
    exact .append (.cons comment (.cons (.text derived) .nil))
      (members.block type (.ofList (by decide)))
  case functions =>
    have constant :
        SameText ("pub const INTERFACE: &'static str = " ++ quote c.interface ++ ";") _ :=
      (SameText.quote c.interface d.interface).around (.ofList (by decide)) (.ofList (by decide))
    have functions := SameLines.spaced (sameLines_classFunctions same)
    have type : IsPlain ("impl " ++ c.typeName) := .append (.ofList (by decide)) same.plain.typeName
    exact .block type (.ofList (by decide)) (.cons (.text constant) functions)

/-- Whatever names of a description are put in the place of those of a class, the file of the class
has as many lines as before, one for each line of code, and the same code outside comments and
string literals, as long as no line ends in a name that stands in a comment. -/
theorem skeleton_classCode_of_renamed {doc : Document} (member : c ∈ (Model.ofDocument doc).classes)
    (renamed : c.Renamed d) (left : ∀ name ∈ c.commentNames, OneLine name)
    (right : ∀ name ∈ d.commentNames, OneLine name) :
    (linesOf (render (classCode c))).length = (linesOf (render (classCode d))).length ∧
      skeleton .code (render (classCode c)).toList =
        skeleton .code (render (classCode d)).toList := by
  have same := sameLines_classCode ⟨plainClass_of_mem member, renamed, left, right⟩
  refine ⟨?_, same.render⟩
  rw [length_linesOf_of_oneLine same.oneLine.1, length_linesOf_of_oneLine same.oneLine.2,
    same.length_eq]

/-- A line end in the name of the interface is in the first line of its file. -/
theorem sum_count_lineEnd_ne_zero (lineEnd : '\n' ∈ c.interface.toList) :
    ((classCode c).map fun l => l.content.toList.count '\n').sum ≠ 0 := by
  intro none
  have zero : ∀ l ∈ classCode c, l.content.toList.count '\n' = 0 := by
    intro l listed
    exact List.sum_eq_zero_iff_forall_eq_nat.mp none _ (List.mem_map_of_mem listed)
  have summary := zero (.text ("//! " ++ ("Binding for the `" ++ c.interface ++ "` interface.")))
    List.mem_cons_self
  rw [Line.content, List.count_eq_zero, String.toList_append, String.toList_append,
    String.toList_append] at summary
  exact summary (List.mem_append_right _ (List.mem_append_left _ (List.mem_append_right _ lineEnd)))

/-- A description of two interfaces, one of them with a query and a send. -/
def accounts : Document where
  interfaces := [⟨"account", none, none, [], [], []⟩,
    ⟨"savings", some "account", some "abc123", ["get_balance"], ["deposit"], ["deposit"]⟩]
  getMethods := [⟨"get_balance", [⟨none, "day", "uint32"⟩],
    [⟨none, "balance", "uint64"⟩, ⟨none, "rate", "uint8"⟩]⟩]
  messages := [⟨"deposit", .parsed ⟨"deposit", ⟨"2f", by decide, by decide, by decide⟩,
    [⟨none, "amount", "uint64"⟩], "InternalMsgBody"⟩⟩]

def savings : Binding.Class where
  interface := "savings"
  typeName := "Savings"
  moduleName := "savings"
  fingerprint := some "abc123"
  lineage := ["savings", "account"]
  queries := [⟨"get_balance", "get_balance", "probe_get_balance", some "probe_get_balance_with",
    [⟨"day", "day", .integer 32 false⟩], .record "GetBalanceResult"
      [⟨"balance", "balance", .integer 64 false⟩, ⟨"rate", "rate", .integer 8 false⟩]⟩]
  sends := [⟨"deposit", "send_deposit", "probe_send_deposit", ⟨"Deposit", "deposit",
    ⟨"2f", by decide, by decide, by decide⟩, [⟨"amount", "amount", .integer 64 false⟩],
      "InternalMsgBody"⟩⟩]
  outbound := ["deposit"]

/-- The class under names that would end a literal or a block comment. -/
def hostile : Binding.Class :=
  { savings with
    interface := "\"; impl \\"
    fingerprint := some "*/ */"
    lineage := ["\"; impl \\", "`*/"]
    queries := savings.queries.map fun q => { q with method := "\\\"] \x7d" }
    sends := savings.sends.map fun s => { s with message := "\" => other" }
    outbound := ["//!"] }

theorem mem_accounts : savings ∈ (Model.ofDocument accounts).classes := by decide +kernel

theorem oneLine_savings : ∀ name ∈ savings.commentNames, OneLine name := by
  show ∀ name ∈ ["savings", "account", "abc123", "deposit", "get_balance", "deposit"], OneLine name
  simp only [List.forall_mem_cons]
  exact ⟨.ofList (by decide), .ofList (by decide), .ofList (by decide), .ofList (by decide),
    .ofList (by decide), .ofList (by decide), List.forall_mem_nil _⟩

/-- A class whose new names hold quotes, backslashes, and marks of comments. -/
theorem skeleton_classCode_of_renamed_hostile :
    savings ∈ (Model.ofDocument accounts).classes ∧ savings.Renamed hostile ∧
      (∀ name ∈ savings.commentNames, OneLine name) ∧
      (∀ name ∈ hostile.commentNames, OneLine name) ∧
      (linesOf (render (classCode savings))).length =
        (linesOf (render (classCode hostile))).length ∧
      skeleton .code (render (classCode savings)).toList =
        skeleton .code (render (classCode hostile)).toList := by
  have renamed : savings.Renamed hostile :=
    ⟨rfl, rfl, rfl, rfl, .cons ⟨_, rfl⟩ .nil, .cons ⟨_, rfl⟩ .nil, rfl⟩
  have right : ∀ name ∈ hostile.commentNames, OneLine name := by
    show ∀ name ∈ ["\"; impl \\", "`*/", "*/ */", "//!", "\\\"] \x7d", "\" => other"], OneLine name
    simp only [List.forall_mem_cons]
    exact ⟨.ofList (by decide), .ofList (by decide), .ofList (by decide), .ofList (by decide),
      .ofList (by decide), .ofList (by decide), List.forall_mem_nil _⟩
  exact ⟨mem_accounts, renamed, oneLine_savings, right,
    skeleton_classCode_of_renamed mem_accounts renamed oneLine_savings right⟩

/-- The class under a name in which a line ends. -/
def broken : Binding.Class := { savings with interface := "savings\nmod added;" }

/-- No line of code is added with the name. -/
theorem length_classCode_broken : (classCode broken).length = (classCode savings).length := by
  have header : (classHeader broken).length = (classHeader savings).length := by
    rw [length_classHeader, length_classHeader]
    rfl
  have functions : classFunctions broken = classFunctions savings := rfl
  have conformance : conformanceCode broken = conformanceCode savings := rfl
  have queries : broken.queries = savings.queries := rfl
  unfold classCode
  rw [functions, conformance, queries]
  simp only [List.length_append, header, spaced, block, texts, List.flatMap_cons,
    List.flatMap_nil, List.map_cons, List.map_nil, List.length_cons]

/-- What stands behind the line end in a name is a line of its own, and is code. -/
theorem skeleton_classCode_lineEnd :
    savings ∈ (Model.ofDocument accounts).classes ∧ savings.Renamed broken ∧
      (linesOf (render (classCode savings))).length <
        (linesOf (render (classCode broken))).length ∧
      skeleton .code (render (classCode savings)).toList ≠
        skeleton .code (render (classCode broken)).toList := by
  have renamed : savings.Renamed broken :=
    ⟨rfl, rfl, rfl, rfl, .cons ⟨_, rfl⟩ .nil, .cons ⟨_, rfl⟩ .nil, rfl⟩
  have same : SameLines (classCode savings) (classCode savings) :=
    sameLines_classCode ⟨plainClass_of_mem mem_accounts,
      ⟨rfl, rfl, rfl, rfl, .cons ⟨_, rfl⟩ .nil, .cons ⟨_, rfl⟩ .nil, rfl⟩, oneLine_savings,
      oneLine_savings⟩
  have split := sum_count_lineEnd_ne_zero (show '\n' ∈ broken.interface.toList by decide)
  have more : (linesOf (render (classCode savings))).length <
      (linesOf (render (classCode broken))).length := by
    rw [length_linesOf_of_oneLine same.oneLine.1, length_linesOf_render_eq, length_classCode_broken]
    omega
  refine ⟨mem_accounts, renamed, more, ?_⟩
  intro equal
  rw [length_linesOf_render, length_linesOf_render, ← count_skeleton .code, equal,
    count_skeleton] at more
  exact Nat.lt_irrefl _ more

end Code

end ContractAbi
