import ContractAbi.Inheritance.Graph

/-!
# Declared interfaces and their parents

`firstDeclared` keeps one interface for each declared name, and `declaredParent` leads from a
declared name to a declared name. A walk along parents therefore never leaves the names that the
graph is made of. Looking a name up among the declared interfaces is looking it up in the document
(`lookup_firstDeclared`), so that the parents that count are those of `Document.Extends`
(`declaredParent_eq_some_iff`).
-/

namespace ContractAbi

/-- The parent that the first interface of a name is written with, declared or not. -/
def Document.writtenParent? (doc : Document) (name : String) : Option String :=
  (doc.interface? name).bind (·.parent)

/-- The first interface of a name is written with a parent that is declared. -/
def Document.Extends (doc : Document) (name parent : String) : Prop :=
  doc.writtenParent? name = some parent ∧ parent ∈ doc.interfaceNames

/-- The names of the records of a list. -/
def Document.recordNames (doc : Document) : RecordKind → List String
  | .interface => doc.interfaces.map (·.name)
  | .getMethod => doc.getMethods.map (·.name)
  | .message => doc.messages.map (·.name)

/-- Where keys are distinct, an entry of a list is the only one with its key. -/
theorem filter_key_of_mem {α : Type} {key : α → String} {xs : List α}
    (distinct : (xs.map key).Nodup) {x : α} (member : x ∈ xs) :
    xs.filter (key · == key x) = [x] := by
  induction xs with
  | nil => cases member
  | cons y xs ih =>
    obtain ⟨unused, rest⟩ := List.nodup_cons.mp distinct
    rcases List.mem_cons.mp member with rfl | later
    · have others : xs.filter (key · == key x) = [] := by
        apply List.filter_eq_nil_iff.mpr
        intro z listed same
        exact unused (beq_iff_eq.mp same ▸ List.mem_map_of_mem listed)
      rw [List.filter_cons_of_pos (by simp), others]
    · have different : key y ≠ key x := fun same =>
        unused (same ▸ List.mem_map_of_mem later)
      rw [List.filter_cons_of_neg (by simpa using different)]
      exact ih rest later

/-- Where keys are distinct, each entry of a list is found by its own key. -/
theorem find?_key_of_mem {α : Type} {key : α → String} {xs : List α}
    (distinct : (xs.map key).Nodup) {x : α} (member : x ∈ xs) :
    xs.find? (key · == key x) = some x := by
  rw [← List.head?_filter, filter_key_of_mem distinct member, List.head?_cons]

/-- A key finds an entry exactly if an entry has it. -/
theorem isSome_find?_key {α : Type} {key : α → String} {xs : List α} {name : String} :
    (xs.find? (key · == name)).isSome = true ↔ name ∈ xs.map key := by
  rw [List.find?_isSome, List.mem_map]
  simp

namespace Inheritance

theorem mem_names_firstDeclared {name : String} (seen : List String) (is : List Interface) :
    name ∈ (firstDeclared seen is).map (·.name) ↔ name ∈ is.map (·.name) ∧ name ∉ seen := by
  induction is generalizing seen with
  | nil => simp [firstDeclared]
  | cons i is ih =>
    rw [firstDeclared]
    by_cases known : i.name ∈ seen
    · rw [if_pos known, ih, List.map_cons, List.mem_cons]
      constructor
      · rintro ⟨member, unseen⟩
        exact ⟨Or.inr member, unseen⟩
      · rintro ⟨rfl | member, unseen⟩
        · exact absurd known unseen
        · exact ⟨member, unseen⟩
    · rw [if_neg known, List.map_cons, List.mem_cons, ih, List.map_cons, List.mem_cons]
      by_cases same : name = i.name
      · subst same
        simp [known]
      · simp [same]

/-- Declarations that count have different names. -/
theorem nodup_names_firstDeclared (seen : List String) (is : List Interface) :
    ((firstDeclared seen is).map (·.name)).Nodup := by
  induction is generalizing seen with
  | nil => simp [firstDeclared]
  | cons i is ih =>
    rw [firstDeclared]
    by_cases known : i.name ∈ seen
    · rw [if_pos known]
      exact ih seen
    · rw [if_neg known, List.map_cons, List.nodup_cons]
      refine ⟨?_, ih _⟩
      intro member
      have unseen := ((mem_names_firstDeclared _ _).mp member).2
      exact unseen List.mem_cons_self

theorem isSome_lookup {decls : List Interface} {name : String} :
    (lookup decls name).isSome ↔ name ∈ decls.map (·.name) :=
  isSome_find?_key

/-- A parent that counts is declared itself. -/
theorem mem_names_of_declaredParent {decls : List Interface} {name parent : String}
    (found : declaredParent decls name = some parent) : parent ∈ decls.map (·.name) := by
  unfold declaredParent at found
  cases declared : lookup decls name with
  | none => simp [declared] at found
  | some i =>
    cases written : i.parent with
    | none => simp [declared, written] at found
    | some p =>
      simp only [declared, written, Option.bind_eq_bind, Option.bind_some] at found
      split at found
      · rename_i isDeclared
        cases found
        exact isSome_lookup.mp isDeclared
      · cases found

/-- A name is looked up to its first declaration. -/
theorem lookup_firstDeclared {name : String} (seen : List String) (is : List Interface)
    (unseen : name ∉ seen) :
    lookup (firstDeclared seen is) name = is.find? (·.name == name) := by
  induction is generalizing seen with
  | nil => rfl
  | cons i is ih =>
    rw [firstDeclared]
    by_cases same : i.name = name
    · have notSeen : i.name ∉ seen := same ▸ unseen
      rw [if_neg notSeen, lookup, List.find?_cons_of_pos (by simpa using same),
        List.find?_cons_of_pos (by simpa using same)]
    · rw [List.find?_cons_of_neg (by simpa using same)]
      by_cases known : i.name ∈ seen
      · rw [if_pos known]
        exact ih seen unseen
      · have unseenThere : name ∉ i.name :: seen :=
          List.not_mem_cons_of_ne_of_not_mem (Ne.symm same) unseen
        rw [if_neg known, lookup, List.find?_cons_of_neg (by simpa using same)]
        exact ih (i.name :: seen) unseenThere

/-- The interface that counts for a name is the first one of the document. -/
theorem lookup_interfaces (doc : Document) (name : String) :
    lookup (firstDeclared [] doc.interfaces) name = doc.interface? name :=
  lookup_firstDeclared [] doc.interfaces List.not_mem_nil

theorem mem_interfaceNames {doc : Document} {name : String} :
    name ∈ (firstDeclared [] doc.interfaces).map (·.name) ↔ name ∈ doc.interfaceNames := by
  rw [mem_names_firstDeclared]
  exact and_iff_left List.not_mem_nil

/-- The interfaces that count are those that their own name finds. -/
theorem mem_firstDeclared {doc : Document} {i : Interface} :
    i ∈ firstDeclared [] doc.interfaces ↔ doc.interface? i.name = some i := by
  rw [← lookup_interfaces]
  constructor
  · exact find?_key_of_mem (nodup_names_firstDeclared [] doc.interfaces)
  · exact List.mem_of_find?_eq_some

/-- The parent that is declared is the interface that is extended. -/
theorem declaredParent_eq_some_iff {doc : Document} {name parent : String} :
    declaredParent (firstDeclared [] doc.interfaces) name = some parent ↔
      doc.Extends name parent := by
  have written : declaredParent (firstDeclared [] doc.interfaces) name =
      (doc.writtenParent? name).bind fun p =>
        if (lookup (firstDeclared [] doc.interfaces) p).isSome then some p else none := by
    rw [declaredParent, lookup_interfaces, Document.writtenParent?, Option.bind_assoc]
    rfl
  rw [written, Option.bind_eq_some_iff, Document.Extends, ← mem_interfaceNames, ← isSome_lookup]
  constructor
  · rintro ⟨p, found, kept⟩
    by_cases declared : (lookup (firstDeclared [] doc.interfaces) p).isSome = true
    · rw [if_pos declared] at kept
      cases kept
      exact ⟨found, declared⟩
    · rw [if_neg declared] at kept
      cases kept
  · rintro ⟨found, declared⟩
    exact ⟨parent, found, if_pos declared⟩

end Inheritance

end ContractAbi
