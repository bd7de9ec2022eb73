import ContractAbi.Proofs.Inheritance.Lineage

/-!
# Ancestors

What an interface has in common with its ancestors. An ancestor stands in front of the interface in
the order, and where the chain of ancestors is not longer than a lineage may be, the lineage of the
ancestor is part of that of the interface (`lineage_subset`), so that the interface has the members
of its ancestors (`members_subset`).
-/

namespace ContractAbi

namespace Inheritance

theorem before_of_idxOf_lt {order : List String} {a b : String} (member : b ∈ order)
    (lower : order.idxOf a < order.idxOf b) : Before order a b := by
  refine ⟨order.take (order.idxOf b), order.drop (order.idxOf b),
    (List.take_append_drop ..).symm, ?_, ?_⟩
  · have inside := Nat.lt_trans lower (List.idxOf_lt_length_of_mem member)
    rw [List.mem_take_iff_getElem]
    exact ⟨order.idxOf a, by omega, List.getElem_idxOf inside⟩
  · rw [List.mem_drop_iff_getElem]
    have inside := List.idxOf_lt_length_of_mem member
    exact ⟨0, by omega, by simp⟩

theorem Before.reverse {order : List String} {a b : String} (h : Before order a b) :
    Before order.reverse b a := by
  obtain ⟨front, back, rfl, inFront, inBack⟩ := h
  exact ⟨back.reverse, front.reverse, List.reverse_append, List.mem_reverse.mpr inBack,
    List.mem_reverse.mpr inFront⟩

end Inheritance

namespace Graph

open Inheritance

theorem ancestor?_add {g : Graph} {j : Nat} {name a : String}
    (above : g.ancestor? j name = some a) (k : Nat) :
    g.ancestor? k a = g.ancestor? (k + j) name := by
  rw [ancestor?, ← above, ancestor?, ancestor?, ← Function.iterate_add_apply]

theorem ancestor?_succ (g : Graph) (k : Nat) (name : String) :
    g.ancestor? (k + 1) name = (g.ancestor? k name).bind g.parent? := by
  rw [ancestor?, Function.iterate_succ_apply']
  rfl

/-- Above the end of a chain there is nothing. -/
theorem lt_of_ancestor? {g : Graph} {j k : Nat} {name a : String}
    (complete : g.ancestor? k name = none) (above : g.ancestor? j name = some a) : j < k := by
  by_contra far
  have beyond : g.ancestor? (j - k + k) name = none := by
    rw [ancestor?, Function.iterate_add_apply]
    rw [show (Option.bind · g.parent?)^[k] (some name) = none from complete]
    exact Function.iterate_fixed rfl _
  rw [Nat.sub_add_cancel (Nat.not_lt.mp far), above] at beyond
  cases beyond

variable {doc : Document} {name ancestor : String}

theorem mem_interfaceNames_of_parent? {p : String}
    (kept : (ofDocument doc).parent? name = some p) :
    name ∈ doc.interfaceNames ∧ p ∈ doc.interfaceNames := by
  obtain ⟨declared, -, step⟩ := parent?_ofDocument kept
  exact ⟨mem_interfaceNames.mp declared, mem_interfaceNames.mp (mem_names_of_declaredParent step)⟩

theorem mem_interfaceNames_of_ancestor? {k : Nat}
    (above : (ofDocument doc).ancestor? (k + 1) name = some ancestor) :
    name ∈ doc.interfaceNames ∧ ancestor ∈ doc.interfaceNames := by
  induction k generalizing ancestor with
  | zero => exact mem_interfaceNames_of_parent? above
  | succ k ih =>
    rw [ancestor?_succ] at above
    obtain ⟨below, found, step⟩ := Option.bind_eq_some_iff.mp above
    exact ⟨(ih found).1, (mem_interfaceNames_of_parent? step).2⟩

/-- Ancestors come first in the order. -/
theorem idxOf_lt_of_ancestor? {k : Nat}
    (above : (ofDocument doc).ancestor? (k + 1) name = some ancestor) :
    (ofDocument doc).order.idxOf ancestor < (ofDocument doc).order.idxOf name := by
  induction k generalizing ancestor with
  | zero => exact idxOf_lt_of_parent? above
  | succ k ih =>
    rw [ancestor?_succ] at above
    obtain ⟨below, found, step⟩ := Option.bind_eq_some_iff.mp above
    exact Nat.lt_trans (idxOf_lt_of_parent? step) (ih found)

/-- In the reversed order an interface stands in front of its ancestors. -/
theorem before_ancestor {k : Nat}
    (above : (ofDocument doc).ancestor? (k + 1) name = some ancestor) :
    Before (ofDocument doc).reverseOrder name ancestor := by
  have declared := (mem_interfaceNames_of_ancestor? above).1
  have member := (perm_order_ofDocument doc).mem_iff.mpr (mem_interfaceNames.mpr declared)
  exact (before_of_idxOf_lt member (idxOf_lt_of_ancestor? above)).reverse

section

variable (complete : (ofDocument doc).ancestor? maxDepth name = none) {k : Nat}
  (above : (ofDocument doc).ancestor? (k + 1) name = some ancestor)

include complete above

/-- The lineage of an ancestor is the rest of a chain that is followed to its end. -/
theorem lineage_subset : (ofDocument doc).lineage ancestor ⊆ (ofDocument doc).lineage name := by
  obtain ⟨declared, ancestorDeclared⟩ := mem_interfaceNames_of_ancestor? above
  intro other member
  rw [lineage_ofDocument ancestorDeclared] at member
  rw [lineage_ofDocument declared]
  -- What is `j` steps above the ancestor is `j + (k + 1)` steps above the interface, and within the
  -- bound, for the chain ends there.
  obtain ⟨j, at'⟩ := List.mem_iff_getElem?.mp member
  rw [getElem?_lineageWithin] at at'
  by_cases within : j < maxDepth
  · rw [if_pos within] at at'
    have further := ancestor?_add above j
    rw [show (ofDocument doc).ancestor? j ancestor = some other from at'] at further
    apply List.mem_iff_getElem?.mpr
    refine ⟨j + (k + 1), ?_⟩
    rw [getElem?_lineageWithin, if_pos (lt_of_ancestor? complete further.symm)]
    exact further.symm
  · rw [if_neg within] at at'
    cases at'

/-- An interface has the members of its ancestors. -/
theorem members_subset {members inherited : Members}
    (found : (ofDocument doc).members? name = some members)
    (ofAncestor : (ofDocument doc).members? ancestor = some inherited) (kind : ReferenceKind) :
    inherited.ofKind kind ⊆ members.ofKind kind := by
  obtain ⟨declared, ancestorDeclared⟩ := mem_interfaceNames_of_ancestor? above
  intro member listed
  obtain ⟨⟨other, inLineage, references⟩, resolves⟩ :=
    (mem_ofKind_iff ancestorDeclared ofAncestor).mp listed
  have above' := lineage_subset complete above inLineage
  exact (mem_ofKind_iff declared found).mpr ⟨⟨other, above', references⟩, resolves⟩

end

end Graph

end ContractAbi
