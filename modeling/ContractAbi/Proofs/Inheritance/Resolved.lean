import ContractAbi.Proofs.Inheritance.Order

/-!
# What a resolved document knows of a name

`Graph.ofDocument` makes one entry for each declared name. The lemmas say what the entry holds in
terms of the document and of the walks over it: the parent that is kept
(`parent?_ofDocument_apply`), the lineage along kept parents and the members along the lineage.
-/

namespace ContractAbi

namespace Inheritance

/-- What the walks over the declared parents of a document find. -/
def walks (doc : Document) : Sorted :=
  sort (declaredParent (firstDeclared [] doc.interfaces))
    ((firstDeclared [] doc.interfaces).map (·.name))

/-- The interfaces whose step to the parent closes a cycle. -/
def dropped (doc : Document) : List String := (walks doc).cycles.filterMap closer?

theorem find?_beq_map {β : Type} (names : List String) (f : String → β) (label : β → String)
    (labelled : ∀ name, label (f name) = name) (name : String) :
    (names.map f).find? (label · == name) = if name ∈ names then some (f name) else none := by
  induction names with
  | nil => rfl
  | cons n names ih =>
    rw [List.map_cons]
    by_cases same : n = name
    · rw [List.find?_cons_of_pos (by simp [labelled, same]), if_pos (same ▸ List.mem_cons_self),
        same]
    · have other : name ∈ n :: names ↔ name ∈ names := by simp [Ne.symm same]
      rw [List.find?_cons_of_neg (by simp [labelled, same]), ih]
      simp only [other]

end Inheritance

namespace Graph

open Inheritance

variable {doc : Document} {name : String}

/-- An interface keeps its declared parent unless the step to it closes a cycle. -/
theorem parent?_ofDocument_apply (doc : Document) (name : String) :
    (ofDocument doc).parent? name = if name ∈ dropped doc then none
      else declaredParent (firstDeclared [] doc.interfaces) name := by
  have undeclared : name ∉ (firstDeclared [] doc.interfaces).map (·.name) →
      declaredParent (firstDeclared [] doc.interfaces) name = none := by
    intro missing
    have none : lookup (firstDeclared [] doc.interfaces) name = none := by
      rw [← Option.not_isSome_iff_eq_none]
      exact fun found => missing (isSome_lookup.mp found)
    simp [declaredParent, none]
  rw [parent?, entry?, ofDocument, find?_beq_map _ _ _ fun _ => rfl]
  by_cases declared : name ∈ (firstDeclared [] doc.interfaces).map (·.name)
  · rw [if_pos declared]
    rfl
  · rw [if_neg declared, undeclared declared]
    simp

/-- The entry of a declared name, in terms of the parents that are kept. -/
theorem entry?_ofDocument (declared : name ∈ doc.interfaceNames) :
    entry? (ofDocument doc) name =
      some ⟨name, (ofDocument doc).parent? name,
        lineageWithin (ofDocument doc).parent? maxDepth name,
        membersOf doc (firstDeclared [] doc.interfaces)
          (lineageWithin (ofDocument doc).parent? maxDepth name)⟩ := by
  have kept : (ofDocument doc).parent? = fun name => if name ∈ dropped doc then none
      else declaredParent (firstDeclared [] doc.interfaces) name :=
    funext (parent?_ofDocument_apply doc)
  rw [kept, entry?, ofDocument, find?_beq_map _ _ _ fun _ => rfl,
    if_pos (mem_interfaceNames.mpr declared)]
  rfl

/-- The lineage that is looked up is the one that was followed. -/
theorem lineage_ofDocument (declared : name ∈ doc.interfaceNames) :
    (ofDocument doc).lineage name = lineageWithin (ofDocument doc).parent? maxDepth name := by
  rw [lineage, entry?_ofDocument declared]
  rfl

/-- The members that are looked up are those of the lineage. -/
theorem members?_ofDocument (declared : name ∈ doc.interfaceNames) :
    (ofDocument doc).members? name =
      some (membersOf doc (firstDeclared [] doc.interfaces) ((ofDocument doc).lineage name)) := by
  rw [lineage_ofDocument declared, members?, entry?_ofDocument declared]
  rfl

/-- A kept parent stands in front of its child in the order. -/
theorem idxOf_lt_of_parent? {p : String} (kept : (ofDocument doc).parent? name = some p) :
    (ofDocument doc).order.idxOf p < (ofDocument doc).order.idxOf name := by
  obtain ⟨declared, notDropped, step⟩ := parent?_ofDocument kept
  have perm := perm_order_ofDocument doc
  have distinct := perm.nodup_iff.mpr (nodup_names_firstDeclared [] doc.interfaces)
  rcases (progress_ofDocument doc).placed name (perm.mem_iff.mpr declared) p step with
    before | closing
  · exact before.idxOf_lt distinct
  · exact absurd closing notDropped

end Graph

end ContractAbi
