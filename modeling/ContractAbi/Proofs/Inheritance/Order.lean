import ContractAbi.Proofs.Inheritance.Declared
import ContractAbi.Proofs.Inheritance.Walk

/-!
# Parents before children

`sort` walks from every name in turn. `Progress` is what one walk after another keeps: the order so
far and the fresh names together are all names, and each interface in the order stands behind its
parent unless the step to the parent closed a cycle. At the end no name is fresh, so that the order
holds every name once.
-/

namespace ContractAbi

namespace Inheritance

variable {parent : String → Option String} {names : List String}

/-- `order` can be cut so that `a` lies in front of the cut and `b` behind it. -/
def Before (order : List String) (a b : String) : Prop :=
  ∃ front back, order = front ++ back ∧ a ∈ front ∧ b ∈ back

theorem Before.append_left {order : List String} {a b : String} (h : Before order a b)
    (more : List String) : Before (more ++ order) a b := by
  obtain ⟨front, back, rfl, inFront, inBack⟩ := h
  exact ⟨more ++ front, back, (List.append_assoc ..).symm, List.mem_append_right _ inFront, inBack⟩

theorem Before.append_right {order : List String} {a b : String} (h : Before order a b)
    (more : List String) : Before (order ++ more) a b := by
  obtain ⟨front, back, rfl, inFront, inBack⟩ := h
  exact ⟨front, back ++ more, List.append_assoc .., inFront, List.mem_append_left _ inBack⟩

/-- What comes before has the smaller index. -/
theorem Before.idxOf_lt {order : List String} {a b : String} (h : Before order a b)
    (distinct : order.Nodup) : order.idxOf a < order.idxOf b := by
  obtain ⟨front, back, rfl, inFront, inBack⟩ := h
  have notFront : b ∉ front := fun member =>
    (List.nodup_append.mp distinct).2.2 b member b inBack rfl
  rw [List.idxOf_append_of_mem inFront, List.idxOf_append_of_notMem notFront]
  exact Nat.lt_add_right _ (List.idxOf_lt_length_of_mem inFront)

/-- On an ascent every interface but the first stands behind its parent. -/
theorem before_of_isAscent {top : String} {above : List String}
    (ascent : IsAscent parent (top :: above)) {name : String} (member : name ∈ above) {p : String}
    (step : parent name = some p) : Before (top :: above) p name := by
  induction above generalizing top with
  | nil => cases member
  | cons next above ih =>
    obtain ⟨first, rest⟩ := List.isChain_cons_cons.mp ascent
    rcases List.mem_cons.mp member with rfl | deeper
    · have same : top = p := Option.some.inj (first.symm.trans step)
      subst same
      exact ⟨[top], name :: above, rfl, List.mem_singleton_self _, List.mem_cons_self⟩
    · exact (ih rest deeper).append_left [top]

/-- What the walks so far keep. -/
structure Progress (parent : String → Option String) (names : List String) (s : Sorted) :
    Prop where
  /-- No name is lost and none comes twice. -/
  perm : (s.order ++ s.fresh).Perm names
  /-- A parent stands in front of its child, unless the step between them closed a cycle. -/
  placed : ∀ name ∈ s.order, ∀ p, parent name = some p →
    Before s.order p name ∨ name ∈ s.cycles.filterMap closer?

namespace Progress

variable {s : Sorted}

theorem nodup_fresh (h : Progress parent names s) (distinct : names.Nodup) : s.fresh.Nodup :=
  (List.nodup_append.mp (h.perm.nodup_iff.mpr distinct)).2.1

theorem start (parent : String → Option String) (names : List String) :
    Progress parent names ⟨[], names, []⟩ where
  perm := .refl _
  placed := by simp

/-- The parent of the interface that a walk stops at stands in front of it, or its step closed a
cycle. -/
theorem top_placed (h : Progress parent names s) (inNames : ∀ n p, parent n = some p → p ∈ names)
    {above : List String} {top : String} {c : Climb} (path : c.path = top :: above)
    (moved : (c.path ++ c.fresh).Perm s.fresh) (stop : Stop parent top c) {p : String}
    (step : parent top = some p) :
    Before (s.order ++ c.path) p top ∨ top ∈ c.cycle.toList.filterMap closer? := by
  cases stop with
  | root none _ => rw [none] at step; cases step
  | known q found offPath notFresh _ =>
    have same : q = p := Option.some.inj (found.symm.trans step)
    subst same
    have done : q ∈ s.order := by
      rcases List.mem_append.mp (h.perm.mem_iff.mpr (inNames _ _ step)) with done | fresh
      · exact done
      · rcases List.mem_append.mp (moved.mem_iff.mpr fresh) with onPath | left
        · exact absurd onPath offPath
        · exact absurd left notFresh
    exact Or.inl ⟨s.order, c.path, rfl, done, path ▸ List.mem_cons_self⟩
  | closed q _ _ _ cycle =>
    refine Or.inr ?_
    rw [cycle, path]
    simp [closer?_cycleOf]

/-- One walk: its path is added in front of which no name of it stood. -/
theorem visit (h : Progress parent names s) (distinct : names.Nodup)
    (inNames : ∀ n p, parent n = some p → p ∈ names) (name : String) :
    Progress parent names (visit parent s name) := by
  obtain ⟨_, same⟩ | ⟨c, walk, added⟩ := visit_cases parent (h.nodup_fresh distinct) name
  · rw [same]
    exact h
  · obtain ⟨top, above, path, stop⟩ := walk.stop
    rw [added]
    constructor
    · rw [List.append_assoc]
      exact (walk.perm.append_left s.order).trans h.perm
    · intro n member p step
      rw [List.filterMap_append]
      rcases List.mem_append.mp member with earlier | now
      · -- Names of earlier walks stay where they are.
        rcases h.placed n earlier p step with before | dropped
        · exact Or.inl (before.append_right c.path)
        · exact Or.inr (List.mem_append_left _ dropped)
      · -- Of this walk's names, the top ends it, and each other one has its parent next.
        rw [path] at now
        rcases List.mem_cons.mp now with rfl | higher
        · rcases h.top_placed inNames path walk.perm stop step with before | dropped
          · exact Or.inl before
          · exact Or.inr (List.mem_append_right _ dropped)
        · refine Or.inl (Before.append_left ?_ s.order)
          have ascent := walk.ascent
          rw [path] at ascent ⊢
          exact before_of_isAscent ascent higher step

/-- All walks: what is fresh at the end was fresh at the start and is none of the names that the
walks began with. -/
theorem foldl_visit (h : Progress parent names s) (distinct : names.Nodup)
    (inNames : ∀ n p, parent n = some p → p ∈ names) (todo : List String) :
    Progress parent names (todo.foldl (Inheritance.visit parent) s) ∧
      ∀ n ∈ (todo.foldl (Inheritance.visit parent) s).fresh, n ∈ s.fresh ∧ n ∉ todo := by
  induction todo generalizing s with
  | nil => exact ⟨h, fun n member => ⟨member, List.not_mem_nil⟩⟩
  | cons name todo ih =>
    obtain ⟨progress, left⟩ := ih (h.visit distinct inNames name)
    refine ⟨progress, ?_⟩
    intro n member
    obtain ⟨stillFresh, notLater⟩ := left n member
    obtain ⟨wasFresh, other⟩ := mem_fresh_visit parent (h.nodup_fresh distinct) stillFresh
    refine ⟨wasFresh, fun listed => ?_⟩
    rcases List.mem_cons.mp listed with same | later
    · exact other same
    · exact notLater later

end Progress

/-- A sort visits every name once, behind its parent unless that step closes a cycle. -/
theorem progress_sort (distinct : names.Nodup) (inNames : ∀ n p, parent n = some p → p ∈ names) :
    Progress parent names (sort parent names) :=
  ((Progress.start parent names).foldl_visit distinct inNames names).1

/-- The walks from all names pass every name once. -/
theorem perm_order_sort (distinct : names.Nodup)
    (inNames : ∀ n p, parent n = some p → p ∈ names) : (sort parent names).order.Perm names := by
  obtain ⟨progress, left⟩ :=
    (Progress.start parent names).foldl_visit distinct inNames names
  have nothingLeft : (sort parent names).fresh = [] :=
    List.eq_nil_iff_forall_not_mem.mpr fun n member => (left n member).2 (left n member).1
  have perm := progress.perm
  change ((sort parent names).order ++ (sort parent names).fresh).Perm names at perm
  rwa [nothingLeft, List.append_nil] at perm

end Inheritance

namespace Graph

open Inheritance

/-- A parent in the graph is a declared parent that was not dropped as the last step of a cycle. -/
theorem parent?_ofDocument {doc : Document} {name p : String}
    (kept : (ofDocument doc).parent? name = some p) :
    let decls := firstDeclared [] doc.interfaces
    let sorted := sort (declaredParent decls) (decls.map (·.name))
    name ∈ decls.map (·.name) ∧ name ∉ sorted.cycles.filterMap closer? ∧
      declaredParent decls name = some p := by
  intro decls sorted
  obtain ⟨e, found, parent⟩ := Option.bind_eq_some_iff.mp kept
  have sameName : e.name = name := by simpa using List.find?_some found
  obtain ⟨n, declared, rfl⟩ := List.mem_map.mp (List.mem_of_find?_eq_some found)
  change n = name at sameName
  subst sameName
  refine ⟨declared, ?_⟩
  by_cases dropped : n ∈ sorted.cycles.filterMap closer?
  · exact absurd parent (by simp [decls, sorted, dropped])
  · exact ⟨dropped, by simpa [decls, sorted, dropped] using parent⟩

theorem progress_ofDocument (doc : Document) :
    let decls := firstDeclared [] doc.interfaces
    Progress (declaredParent decls) (decls.map (·.name))
      (sort (declaredParent decls) (decls.map (·.name))) :=
  progress_sort (nodup_names_firstDeclared _ _) fun _ _ => mem_names_of_declaredParent

/-- Every declared interface has one place in the order. -/
theorem perm_order_ofDocument (doc : Document) :
    (ofDocument doc).order.Perm ((firstDeclared [] doc.interfaces).map (·.name)) :=
  perm_order_sort (nodup_names_firstDeclared _ _) fun _ _ => mem_names_of_declaredParent

/-- The order of a resolved document holds every declared name once and nothing else, an interface
stands behind the parent that it keeps, and the other order is this one read backwards. -/
theorem order_ofDocument (doc : Document) :
    (∀ name, (ofDocument doc).order.count name = if name ∈ doc.interfaceNames then 1 else 0) ∧
      (∀ child parent, (ofDocument doc).parent? child = some parent →
        (ofDocument doc).order.idxOf parent < (ofDocument doc).order.idxOf child) ∧
      (ofDocument doc).reverseOrder = (ofDocument doc).order.reverse := by
  have perm := perm_order_ofDocument doc
  have distinct := nodup_names_firstDeclared [] doc.interfaces
  refine ⟨?_, ?_, rfl⟩
  · intro name
    have listed : name ∈ (ofDocument doc).order ↔ name ∈ doc.interfaceNames := by
      rw [perm.mem_iff, mem_names_firstDeclared]
      exact and_iff_left List.not_mem_nil
    rw [(perm.nodup_iff.mpr distinct).count]
    simp only [listed]
  · intro child parent kept
    obtain ⟨declared, notDropped, step⟩ := parent?_ofDocument kept
    have progress := progress_ofDocument doc
    rcases progress.placed child (perm.mem_iff.mpr declared) parent step with before | dropped
    · exact before.idxOf_lt (perm.nodup_iff.mpr distinct)
    · exact absurd dropped notDropped

end Graph

end ContractAbi
