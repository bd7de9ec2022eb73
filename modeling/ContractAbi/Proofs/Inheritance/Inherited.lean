import ContractAbi.Proofs.Inheritance.Ancestors

/-!
# What a parent hands down

A lineage goes on with the lineage of the parent, and so an interface has the members that its
parent has, up to the longest lineage that is followed. Where the lineage of the parent has that
length already, its last interface is lost, and with it what only that interface references
(`inherits_ofDocument`, `not_inherits_deep`).
-/

namespace ContractAbi

namespace Inheritance

/-- A lineage that is followed less far is the front of one that is followed further. -/
theorem take_lineageWithin (parent : String → Option String) {m depth : Nat} (le : m ≤ depth)
    (name : String) : (lineageWithin parent depth name).take m = lineageWithin parent m name := by
  refine List.ext_getElem? fun k => ?_
  rw [List.getElem?_take, getElem?_lineageWithin, getElem?_lineageWithin]
  by_cases within : k < m
  · rw [if_pos within, if_pos within, if_pos (Nat.lt_of_lt_of_le within le)]
  · rw [if_neg within, if_neg within]

theorem lineageWithin_succ {parent : String → Option String} {name p : String}
    (step : parent name = some p) (depth : Nat) :
    lineageWithin parent (depth + 1) name = name :: lineageWithin parent depth p := by
  rw [lineageWithin, step]

end Inheritance

namespace Graph

open Inheritance

variable {doc : Document} {name parent : String}

/-- The lineage of the parent follows, up to the bound. -/
theorem lineage_of_parent? (kept : (ofDocument doc).parent? name = some parent) :
    (ofDocument doc).lineage name = name :: ((ofDocument doc).lineage parent).take 63 := by
  obtain ⟨declared, parentDeclared⟩ := mem_interfaceNames_of_parent? kept
  rw [lineage_ofDocument declared, lineage_ofDocument parentDeclared,
    take_lineageWithin _ (show 63 ≤ maxDepth by decide)]
  exact lineageWithin_succ kept 63

/-- The lineage of an interface goes on with the lineage of its parent, which is cut so that no more
than 64 interfaces are followed. The interface has the members of its parent that one of these
references, that is all of them if nothing is cut. -/
theorem inherits_ofDocument (kept : (ofDocument doc).parent? name = some parent) :
    (ofDocument doc).lineage name = name :: ((ofDocument doc).lineage parent).take 63 ∧
    ∃ own inherited, (ofDocument doc).members? name = some own ∧
      (ofDocument doc).members? parent = some inherited ∧
      (∀ kind, ∀ member ∈ inherited.ofKind kind,
        (∃ a ∈ ((ofDocument doc).lineage parent).take 63, member ∈ doc.referencesOf kind a) →
          member ∈ own.ofKind kind) ∧
      (((ofDocument doc).lineage parent).length < 64 →
        (ofDocument doc).lineage name = name :: (ofDocument doc).lineage parent ∧
        ∀ kind, inherited.ofKind kind ⊆ own.ofKind kind) := by
  obtain ⟨declared, parentDeclared⟩ := mem_interfaceNames_of_parent? kept
  have lineage := lineage_of_parent? kept
  have found := members?_ofDocument declared
  have ofParent := members?_ofDocument parentDeclared
  have followed : ∀ kind, ∀ member ∈ (membersOf doc (firstDeclared [] doc.interfaces)
      ((ofDocument doc).lineage parent)).ofKind kind,
      (∃ a ∈ ((ofDocument doc).lineage parent).take 63, member ∈ doc.referencesOf kind a) →
        member ∈ (membersOf doc (firstDeclared [] doc.interfaces)
          ((ofDocument doc).lineage name)).ofKind kind := by
    rintro kind member listed ⟨a, inLineage, references⟩
    -- What the parent has resolves, so that it is enough to follow who references it.
    have resolves := ((mem_ofKind_iff parentDeclared ofParent).mp listed).2
    refine (mem_ofKind_iff declared found).mpr ⟨⟨a, ?_, references⟩, resolves⟩
    rw [lineage]
    exact List.mem_cons_of_mem _ inLineage
  refine ⟨lineage, _, _, found, ofParent, followed, ?_⟩
  intro short
  have whole : ((ofDocument doc).lineage parent).take 63 = (ofDocument doc).lineage parent :=
    List.take_of_length_le (Nat.le_of_lt_succ short)
  rw [whole] at lineage followed
  refine ⟨lineage, fun kind member listed => ?_⟩
  exact followed kind member listed ((mem_ofKind_iff parentDeclared ofParent).mp listed).1

/-- An interface below one with two get-methods. -/
theorem inherits_ofDocument_layered :
    (ofDocument layered).parent? "item" = some "base" ∧
    ((ofDocument layered).lineage "base").length < 64 ∧
    (ofDocument layered).lineage "item" = "item" :: (ofDocument layered).lineage "base" ∧
    ∃ own inherited, (ofDocument layered).members? "item" = some own ∧
      (ofDocument layered).members? "base" = some inherited ∧
      inherited.ofKind .getMethod = ["top", "shared"] ∧
      ∀ kind, inherited.ofKind kind ⊆ own.ofKind kind := by
  have kept : (ofDocument layered).parent? "item" = some "base" := by decide +kernel
  have short : ((ofDocument layered).lineage "base").length < 64 := by decide +kernel
  have ofBase : (ofDocument layered).members? "base" = some ⟨["top", "shared"], ["go"], []⟩ := by
    decide +kernel
  obtain ⟨-, own, inherited, found, ofParent, -, whole⟩ := inherits_ofDocument kept
  obtain ⟨lineage, subset⟩ := whole short
  rw [ofBase] at ofParent
  cases ofParent
  exact ⟨kept, short, lineage, own, _, found, ofBase, rfl, subset⟩

/-- A chain of 65 interfaces, each with the next one as its parent. The last one references a
get-method. -/
def deep : Document where
  interfaces := (List.range 65).map fun k =>
    if k = 64 then ⟨"64", none, none, ["top"], [], []⟩
    else ⟨toString k, some (toString (k + 1)), none, [], [], []⟩
  getMethods := [⟨"top", [], []⟩]
  messages := []

/-- The first interface of the chain keeps its parent, but its lineage ends in front of the last
interface, so that it has less than its parent. -/
theorem not_inherits_deep :
    (ofDocument deep).parent? "0" = some "1" ∧
    (ofDocument deep).lineage "0" ≠ "0" :: (ofDocument deep).lineage "1" ∧
    (ofDocument deep).members? "1" = some ⟨["top"], [], []⟩ ∧
    (ofDocument deep).members? "0" = some ⟨[], [], []⟩ := by
  decide +kernel

end Graph

end ContractAbi
