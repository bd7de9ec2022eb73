import Mathlib.Data.List.Count
import ContractAbi.Proofs.Schema.Encoding
import ContractAbi.Schema.Markup

/-!
# Warnings that a document shows

How often a warning is given is a matter of counting records: once for each message that is the
malformed one in question, and once for each further record of a name in its list. So the order of
the records does not matter, and a document shows the warnings of the description that it was read
from, list after list.
-/

namespace ContractAbi

namespace Record

/-- What the record declares. -/
def key (r : Record) : RecordKind × String := (r.kind, r.name)

/-- The warnings that the record alone calls for. -/
def ownWarnings : Record → List Warning
  | .message m => m.malformedWarning
  | _ => []

/-- How often records call for a warning, in whatever order they come. -/
def problems (rs : List Record) : Warning → Nat
  | .malformedMessage name text reason => rs.count (.message ⟨name, .malformed text reason⟩)
  | .duplicateName kind name => (rs.map key).count (kind, name) - 1
  | _ => 0

variable {seen : List (RecordKind × String)} {w : Warning}

theorem warnings_eq (r : Record) :
    r.warnings seen = r.ownWarnings ++ repeatWarning seen r.kind r.name := by
  cases r <;> rfl

/-! ### The warnings of one record -/

/-- A malformed message is the one record with a warning of its own. -/
theorem ownWarnings_eq (r : Record) :
    r.ownWarnings = [] ∧ (∀ name text reason, r ≠ .message ⟨name, .malformed text reason⟩) ∨
      ∃ name text reason, r = .message ⟨name, .malformed text reason⟩ ∧
        r.ownWarnings = [.malformedMessage name text reason] := by
  cases r with
  | interface | getMethod => exact .inl ⟨rfl, nofun⟩
  | message m =>
    obtain ⟨name, body⟩ := m
    cases body with
    | parsed d => exact .inl ⟨rfl, nofun⟩
    | malformed text reason => exact .inr ⟨name, text, reason, rfl, rfl⟩

theorem mem_repeatWarning {kind : RecordKind} {name : String} :
    w ∈ repeatWarning seen kind name ↔ (kind, name) ∈ seen ∧ w = .duplicateName kind name := by
  rw [repeatWarning]
  split
  · rename_i again
    simp [again]
  · rename_i unseen
    simp [unseen]

theorem count_malformedMessage_ownWarnings (r : Record) (name text reason : String) :
    r.ownWarnings.count (.malformedMessage name text reason) =
      if r = .message ⟨name, .malformed text reason⟩ then 1 else 0 := by
  rcases r.ownWarnings_eq with ⟨none, other⟩ | ⟨name', text', reason', rfl, own⟩
  · rw [none, if_neg (other name text reason), List.count_nil]
  · rw [own, List.count_singleton]
    simp

theorem count_duplicateName_ownWarnings (r : Record) (kind : RecordKind) (name : String) :
    r.ownWarnings.count (.duplicateName kind name) = 0 := by
  rcases r.ownWarnings_eq with ⟨none, -⟩ | ⟨_, _, _, -, own⟩
  · rw [none, List.count_nil]
  · rw [own, List.count_eq_zero]
    simp

theorem count_malformedMessage_repeatWarning (kind : RecordKind) (other name text reason : String) :
    (repeatWarning seen kind other).count (.malformedMessage name text reason) = 0 := by
  rw [List.count_eq_zero, mem_repeatWarning]
  exact nofun

theorem count_duplicateName_repeatWarning (r : Record) (kind : RecordKind) (name : String) :
    (repeatWarning seen r.kind r.name).count (.duplicateName kind name) =
      if r.key = (kind, name) ∧ (kind, name) ∈ seen then 1 else 0 := by
  by_cases again : r.key = (kind, name) ∧ (kind, name) ∈ seen
  · obtain ⟨same, again⟩ := again
    cases same
    rw [if_pos ⟨rfl, again⟩, repeatWarning, if_pos again, List.count_singleton_self]
  · rw [if_neg again, List.count_eq_zero, mem_repeatWarning]
    rintro ⟨taken, same⟩
    cases same
    exact again ⟨rfl, taken⟩

/-! ### The warnings of all records -/

/-- One warning for each malformed message. -/
theorem count_malformedMessage (seen : List (RecordKind × String)) (rs : List Record)
    (name text reason : String) :
    (allWarnings seen rs).count (.malformedMessage name text reason) =
      rs.count (.message ⟨name, .malformed text reason⟩) := by
  induction rs generalizing seen with
  | nil => rfl
  | cons r rs ih =>
    rw [allWarnings, warnings_eq, List.count_append, List.count_append,
      count_malformedMessage_ownWarnings, count_malformedMessage_repeatWarning, ih, List.count_cons]
    simp only [beq_iff_eq]
    omega

/-- One warning for each record whose name has occurred. -/
theorem count_duplicateName (seen : List (RecordKind × String)) (rs : List Record)
    (kind : RecordKind) (name : String) :
    (allWarnings seen rs).count (.duplicateName kind name) =
      (rs.map key).count (kind, name) - if (kind, name) ∈ seen then 0 else 1 := by
  induction rs generalizing seen with
  | nil => simp [allWarnings]
  | cons r rs ih =>
    rw [allWarnings, warnings_eq, List.count_append, List.count_append,
      count_duplicateName_ownWarnings, count_duplicateName_repeatWarning, ih, List.map_cons]
    by_cases same : r.key = (kind, name)
    · -- Behind the record its name has been seen.
      have now : (kind, name) ∈ (r.kind, r.name) :: seen := by
        rw [← same]
        exact List.mem_cons_self
      rw [if_pos now, same, List.count_cons_self]
      by_cases again : (kind, name) ∈ seen
      · rw [if_pos ⟨rfl, again⟩, if_pos again]
        omega
      · rw [if_neg fun both => again both.2, if_neg again]
        omega
    · have unseen : (kind, name) ∈ (r.kind, r.name) :: seen ↔ (kind, name) ∈ seen :=
        List.mem_cons.trans (or_iff_right (Ne.symm same))
      rw [if_neg fun both => same both.1, List.count_cons_of_ne same]
      simp only [unseen, Nat.zero_add]

theorem eq_of_mem_allWarnings {rs : List Record} (member : w ∈ allWarnings seen rs) :
    (∃ name text reason, w = .malformedMessage name text reason) ∨
      ∃ kind name, w = .duplicateName kind name := by
  induction rs generalizing seen with
  | nil => cases member
  | cons r rs ih =>
    rw [allWarnings, warnings_eq] at member
    rcases List.mem_append.mp member with first | later
    · rcases List.mem_append.mp first with own | again
      · rcases r.ownWarnings_eq with ⟨none, -⟩ | ⟨name, text, reason, -, only⟩
        · rw [none] at own
          cases own
        · rw [only] at own
          exact .inl ⟨name, text, reason, List.mem_singleton.mp own⟩
      · exact .inr ⟨r.kind, r.name, (mem_repeatWarning.mp again).2⟩
    · exact ih later

/-- How often each warning is made. -/
theorem count_allWarnings (rs : List Record) (w : Warning) :
    (allWarnings [] rs).count w = problems rs w := by
  have others : (∀ name text reason, w ≠ .malformedMessage name text reason) →
      (∀ kind name, w ≠ .duplicateName kind name) → (allWarnings [] rs).count w = 0 := by
    intro noMalformed noDuplicate
    refine List.count_eq_zero.mpr fun member => ?_
    rcases eq_of_mem_allWarnings member with ⟨_, _, _, rfl⟩ | ⟨_, _, rfl⟩
    · exact noMalformed _ _ _ rfl
    · exact noDuplicate _ _ rfl
  cases w with
  | malformedMessage name text reason => exact count_malformedMessage [] rs name text reason
  | duplicateName kind name => exact count_duplicateName [] rs kind name
  | danglingReference | missingParent | cycleDetected => exact others nofun nofun

theorem problems_perm {rs others : List Record} (perm : rs.Perm others) (w : Warning) :
    problems rs w = problems others w := by
  cases w with
  | malformedMessage name text reason => exact perm.count_eq _
  | duplicateName kind name => exact congrArg (· - 1) ((perm.map key).count_eq _)
  | danglingReference | missingParent | cycleDetected => rfl

/-- The order of the records does not change how often a warning is given. -/
theorem perm_allWarnings {rs others : List Record} (perm : rs.Perm others) :
    (allWarnings [] rs).Perm (allWarnings [] others) := by
  refine List.perm_iff_count.mpr fun w => ?_
  rw [count_allWarnings, count_allWarnings, problems_perm perm]

end Record

/-! ### Documents -/

/-- The records of a document are those that it was made of. -/
theorem Document.perm_records_ofRecords (rs : List Record) : (ofRecords rs).records.Perm rs := by
  induction rs with
  | nil => exact .nil
  | cons r rs ih =>
    cases r with
    | interface i => exact ih.cons (.interface i)
    | getMethod g =>
      have front : (ofRecords (.getMethod g :: rs)).records.Perm
          (.getMethod g :: (ofRecords rs).records) := by
        simp only [records, List.append_assoc]
        exact List.perm_middle
      exact front.trans (ih.cons _)
    | message m =>
      have front : (ofRecords (.message m :: rs)).records.Perm
          (.message m :: (ofRecords rs).records) := List.perm_middle
      exact front.trans (ih.cons _)

theorem Schema.exists_records {text : String} {doc : Document} {warnings : List Warning}
    (parsed : parse text = .ok (doc, warnings)) :
    ∃ rs, doc = .ofRecords rs ∧ warnings = Record.allWarnings [] rs := by
  unfold parse at parsed
  split at parsed
  · cases parsed
  · split at parsed
    · cases parsed
    · rename_i root _
      cases parsed
      exact ⟨recordsOf root, rfl, rfl⟩

/-- A document shows each warning of its description as often as the description called for it, and
so does the document that is read back from its dump. -/
theorem Schema.perm_lint_of_parse {text : String} {doc : Document} {warnings : List Warning}
    (parsed : parse text = .ok (doc, warnings)) :
    doc.lint.Perm warnings ∧ (∀ w, warnings.count w = Record.problems doc.records w) ∧
      ∃ reloaded, Document.ofDump? doc.dump = some reloaded ∧ reloaded.lint.Perm warnings := by
  obtain ⟨rs, rfl, rfl⟩ := exists_records parsed
  have order := Document.perm_records_ofRecords rs
  have same := Record.perm_allWarnings order
  refine ⟨same, fun w => ?_, _, Document.ofDump?_dump _, same⟩
  rw [Record.count_allWarnings, Record.problems_perm order]

/-- The lists take turns, one name stands in all of them, and the message that is declared twice is
unreadable. -/
def Schema.interleaved : String :=
  "<abi><internal name='a'>?</internal><interface name='a'/><get_method name='a'/>" ++
    "<internal name='a'>?</internal><interface name='a'/></abi>"

def Schema.interleavedDocument : Document where
  interfaces := [⟨"a", none, none, [], [], []⟩, ⟨"a", none, none, [], [], []⟩]
  getMethods := [⟨"a", [], []⟩]
  messages :=
    [⟨"a", .malformed "?" (Definition.Fault.message .noHash)⟩,
      ⟨"a", .malformed "?" (Definition.Fault.message .noHash)⟩]

def Schema.interleavedWarnings : List Warning :=
  [.malformedMessage "a" "?" (Definition.Fault.message .noHash),
    .malformedMessage "a" "?" (Definition.Fault.message .noHash),
    .duplicateName .message "a", .duplicateName .interface "a"]

/-- The document shows the repeated interface first, the description shows it last. -/
theorem Schema.perm_lint_interleaved :
    parse interleaved = .ok (interleavedDocument, interleavedWarnings) ∧
    interleavedDocument.lint.Perm interleavedWarnings ∧
    interleavedDocument.lint.head? = some (.duplicateName .interface "a") ∧
    (∀ w, interleavedWarnings.count w = Record.problems interleavedDocument.records w) ∧
    ∃ reloaded, Document.ofDump? interleavedDocument.dump = some reloaded ∧
      reloaded.lint.Perm interleavedWarnings := by
  have parsed : parse interleaved = .ok (interleavedDocument, interleavedWarnings) := by
    decide +kernel
  obtain ⟨same, counts, reloaded⟩ := perm_lint_of_parse parsed
  exact ⟨parsed, same, rfl, counts, reloaded⟩

end ContractAbi
