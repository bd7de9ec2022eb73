import ContractAbi.Proofs.Inheritance.Breaking
import ContractAbi.Proofs.Inheritance.Lineage

/-!
# References

No reference of an interface disappears silently. It is among the members of its interface, or it
names a message whose first record is malformed, which was reported with that record, or it is not
declared at all. The references that are not declared are reported one by one, in the order in which
they are declared (`references_ofDocument`).
-/

namespace ContractAbi

/-- A name that an interface lists in one of its three lists. -/
structure Reference where
  interface : String
  kind : ReferenceKind
  name : String
  deriving DecidableEq

/-- The reference that a warning reports as not declared. -/
def Warning.reference? : Warning → Option Reference
  | .danglingReference interface kind name => some ⟨interface, kind, name⟩
  | _ => none

/-- The kinds of references in the order of the lists of an interface. -/
def ReferenceKind.all : List ReferenceKind := [.getMethod, .inbound, .outbound]

/-- The records that references of a kind name. -/
def ReferenceKind.recordKind : ReferenceKind → RecordKind
  | .getMethod => .getMethod
  | .inbound | .outbound => .message

/-- The references of all interfaces that are the first of their name, in the order of the
interfaces, list after list. -/
def Document.references (doc : Document) : List Reference :=
  (Inheritance.firstOccurrences doc.interfaceNames).flatMap fun interface =>
    ReferenceKind.all.flatMap fun kind =>
      (doc.referencesOf kind interface).map fun name => ⟨interface, kind, name⟩

namespace Reference

/-- What may become of a reference. -/
inductive Fate where
  | member
  | malformed
  | undeclared
  deriving DecidableEq

/-- The reference is among the members of its kind of its interface, it names a message the first
record of which is malformed, or no record has its name. -/
def Meets (doc : Document) (r : Reference) : Fate → Prop
  | .member => ∃ members, (Graph.ofDocument doc).members? r.interface = some members ∧
      r.name ∈ members.ofKind r.kind
  | .malformed => r.kind ≠ .getMethod ∧
      ∃ m, doc.message? r.name = some m ∧ m.isMalformed = true
  | .undeclared => r.name ∉ doc.recordNames r.kind.recordKind

instance (doc : Document) (r : Reference) : Decidable (r.Meets doc .undeclared) :=
  inferInstanceAs (Decidable (r.name ∉ doc.recordNames r.kind.recordKind))

end Reference

namespace Inheritance

variable {doc : Document}

/-- The interfaces that count have the names of the document, each where it first occurs. -/
theorem names_firstDeclared (seen : List String) (is : List Interface) :
    (firstDeclared seen is).map (·.name) =
      ((is.map (·.name)).filter fun name => !decide (name ∈ seen)).eraseDups := by
  induction is generalizing seen with
  | nil => rfl
  | cons i is ih =>
    rw [firstDeclared, List.map_cons]
    by_cases known : i.name ∈ seen
    · rw [if_pos known, ih, List.filter_cons_of_neg (by simpa using known)]
    · rw [if_neg known, List.map_cons, ih, List.filter_cons_of_pos (by simpa using known),
        List.eraseDups_cons, List.filter_filter]
      congr 2
      refine List.filter_congr fun name _ => ?_
      by_cases same : name = i.name <;> simp [same]

theorem names_firstDeclared_eq_firstOccurrences (doc : Document) :
    (firstDeclared [] doc.interfaces).map (·.name) = firstOccurrences doc.interfaceNames := by
  rw [names_firstDeclared, ← eraseDups_eq_firstOccurrences]
  simp [Document.interfaceNames]

/-- The references of an interface, list after list. -/
def referencesOf (i : Interface) : List Reference :=
  ReferenceKind.all.flatMap fun kind => (i.references kind).map fun name => ⟨i.name, kind, name⟩

theorem references_eq_flatMap (doc : Document) :
    doc.references = (firstDeclared [] doc.interfaces).flatMap referencesOf := by
  rw [Document.references, ← names_firstDeclared_eq_firstOccurrences, List.flatMap_map]
  refine List.flatMap_congr fun i member => ?_
  have found := mem_firstDeclared.mp member
  simp only [Document.referencesOf, found, Option.map_some, Option.getD_some]
  rfl

theorem mem_references {r : Reference} : r ∈ doc.references ↔
    r.interface ∈ doc.interfaceNames ∧ r.name ∈ doc.referencesOf r.kind r.interface := by
  rw [Document.references, List.mem_flatMap]
  simp only [mem_firstOccurrences, List.mem_flatMap, List.mem_map]
  constructor
  · rintro ⟨interface, declared, kind, -, name, listed, rfl⟩
    exact ⟨declared, listed⟩
  · rintro ⟨declared, listed⟩
    have ofKind : r.kind ∈ ReferenceKind.all := by cases r.kind <;> decide
    exact ⟨r.interface, declared, r.kind, ofKind, r.name, listed, rfl⟩

theorem isSome_getMethod? (doc : Document) (name : String) :
    (doc.getMethod? name).isSome = decide (name ∈ doc.recordNames .getMethod) :=
  Bool.eq_iff_iff.mpr (isSome_find?_key.trans decide_eq_true_iff.symm)

theorem isSome_message? (doc : Document) (name : String) :
    (doc.message? name).isSome = decide (name ∈ doc.recordNames .message) :=
  Bool.eq_iff_iff.mpr (isSome_find?_key.trans decide_eq_true_iff.symm)

theorem filterMap_dangling (interface : String) (kind : ReferenceKind) (isDeclared : String → Bool)
    (refs : List String) :
    (dangling interface kind isDeclared refs).filterMap Warning.reference? =
      (refs.filter fun n => !isDeclared n).map fun name => ⟨interface, kind, name⟩ := by
  rw [dangling, List.filterMap_map]
  exact congrFun List.filterMap_eq_map _

/-- The warnings of an interface report its references that are not declared. -/
theorem filterMap_danglingReferences (doc : Document) (i : Interface) :
    (danglingReferences doc i).filterMap Warning.reference? =
      (referencesOf i).filter fun r => !decide (r.name ∈ doc.recordNames r.kind.recordKind) := by
  have ofKind (kind : ReferenceKind) (refs : List String) :
      (refs.map fun name => (⟨i.name, kind, name⟩ : Reference)).filter
          (fun r => !decide (r.name ∈ doc.recordNames r.kind.recordKind)) =
        (refs.filter fun n => !decide (n ∈ doc.recordNames kind.recordKind)).map
          fun name => ⟨i.name, kind, name⟩ := List.filter_map
  simp only [danglingReferences, List.filterMap_append, filterMap_dangling, isSome_getMethod?,
    isSome_message?, referencesOf, ReferenceKind.all, List.flatMap_cons, List.flatMap_nil,
    List.filter_append, ofKind, List.append_nil, List.append_assoc]
  rfl

end Inheritance

namespace Graph

open Inheritance

variable {doc : Document} {r : Reference}

/-- The warnings of a graph report the references that are not declared. -/
theorem filterMap_reference?_warnings (doc : Document) :
    (ofDocument doc).warnings.filterMap Warning.reference? =
      doc.references.filter fun r => !decide (r.name ∈ doc.recordNames r.kind.recordKind) := by
  have missing : (missingParents (firstDeclared [] doc.interfaces)).filterMap
      Warning.reference? = [] := filterMap_missingParents (fun _ _ => rfl) _
  have cycles : ((walks doc).cycles.map Warning.cycleDetected).filterMap
      Warning.reference? = [] := by
    refine List.filterMap_eq_nil_iff.mpr fun w member => ?_
    obtain ⟨_, -, rfl⟩ := List.mem_map.mp member
    rfl
  rw [warnings_ofDocument, List.filterMap_append, List.filterMap_append, missing, cycles,
    List.append_nil, List.nil_append, references_eq_flatMap, List.filterMap_flatMap,
    List.filter_flatMap]
  exact List.flatMap_congr fun i _ => filterMap_danglingReferences doc i

/-- An interface is the first of its lineage. -/
theorem mem_lineage_self {name : String} (declared : name ∈ doc.interfaceNames) :
    name ∈ (ofDocument doc).lineage name := by
  rw [lineage_ofDocument declared]
  exact List.mem_cons_self

/-- A reference that an interface lists itself is a member as soon as it resolves. -/
theorem meets_member_iff (listed : r ∈ doc.references) :
    r.Meets doc .member ↔ doc.resolves r.kind r.name = true := by
  obtain ⟨declared, own⟩ := mem_references.mp listed
  constructor
  · rintro ⟨members, found, member⟩
    exact resolves_of_mem declared found r.kind member
  · intro resolves
    have found := members?_ofDocument declared
    have inLineage := mem_lineage_self declared
    exact ⟨_, found, (mem_ofKind_iff declared found).mpr ⟨⟨_, inLineage, own⟩, resolves⟩⟩

/-- A name that resolves has a record. -/
theorem mem_recordNames_of_resolves {kind : ReferenceKind} {name : String}
    (resolves : doc.resolves kind name = true) : name ∈ doc.recordNames kind.recordKind := by
  cases kind with
  | getMethod => exact of_decide_eq_true ((isSome_getMethod? doc name).symm.trans resolves)
  | inbound | outbound =>
    obtain ⟨d, defined⟩ := Option.isSome_iff_exists.mp resolves
    obtain ⟨m, found, -⟩ := Option.bind_eq_some_iff.mp defined
    have isMessage : (doc.message? name).isSome = true := Option.isSome_iff_exists.mpr ⟨m, found⟩
    exact of_decide_eq_true ((isSome_message? doc name).symm.trans isMessage)

/-- A name that has a record and does not resolve is that of a message that is malformed. -/
theorem meets_malformed_iff : r.Meets doc .malformed ↔
    r.name ∈ doc.recordNames r.kind.recordKind ∧ doc.resolves r.kind r.name = false := by
  obtain ⟨interface, kind, name⟩ := r
  cases kind with
  | getMethod =>
    constructor
    · exact fun met => absurd rfl met.1
    · rintro ⟨declared, unresolved⟩
      have isMethod := (isSome_getMethod? doc name).trans (decide_eq_true declared)
      exact absurd isMethod (Bool.eq_false_iff.mp unresolved)
  | inbound | outbound =>
    have isMessage := isSome_message? doc name
    simp only [Reference.Meets, Document.resolves, Document.definition?, ReferenceKind.recordKind]
    cases found : doc.message? name with
    | none =>
      rw [found, Option.isSome_none, eq_comm, decide_eq_false_iff_not] at isMessage
      simp [isMessage]
    | some m =>
      rw [found, Option.isSome_some, eq_comm, decide_eq_true_iff] at isMessage
      simp [isMessage, Message.isMalformed]

/-- There is no fourth case, and no two of the three meet in one reference. -/
theorem existsUnique_fate (listed : r ∈ doc.references) : ∃! fate, r.Meets doc fate := by
  have member := meets_member_iff listed
  have malformed : r.Meets doc .malformed ↔ _ := meets_malformed_iff
  by_cases resolves : doc.resolves r.kind r.name = true
  · have declared := mem_recordNames_of_resolves resolves
    refine ⟨.member, member.mpr resolves, ?_⟩
    rintro (_ | _ | _) met
    · rfl
    · exact absurd resolves (Bool.eq_false_iff.mp (malformed.mp met).2)
    · exact absurd declared met
  · by_cases declared : r.name ∈ doc.recordNames r.kind.recordKind
    · refine ⟨.malformed, malformed.mpr ⟨declared, Bool.eq_false_iff.mpr resolves⟩, ?_⟩
      rintro (_ | _ | _) met
      · exact absurd (member.mp met) resolves
      · rfl
      · exact absurd declared met
    · refine ⟨.undeclared, declared, ?_⟩
      rintro (_ | _ | _) met
      · exact absurd (member.mp met) resolves
      · exact absurd (malformed.mp met).1 declared
      · rfl

/-- Each reference is a member, or names a malformed message, or is not declared, and it is only one
of these. The warnings report one by one, in the order in which they stand, the references that are
not declared, and they report no other reference. -/
theorem references_ofDocument (doc : Document) :
    (∀ r ∈ doc.references, ∃! fate, r.Meets doc fate) ∧
      (ofDocument doc).warnings.filterMap Warning.reference? =
        doc.references.filter fun r => decide (r.Meets doc .undeclared) := by
  refine ⟨fun r listed => existsUnique_fate listed, ?_⟩
  rw [filterMap_reference?_warnings]
  exact List.filter_congr fun r _ => decide_not.symm

/-- Of the names that are listed in vain only the one that is not declared is reported here. -/
example : (ofDocument layered).warnings = [.danglingReference "item" .getMethod "lost"] := by
  decide +kernel

end Graph

end ContractAbi
