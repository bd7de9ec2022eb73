import Mathlib.Data.List.Cycle
import ContractAbi.Proofs.Inheritance.Order

/-!
# Cycles of parents

A cycle of a relation is a list of names up to where it starts, each name related to the next one.
Where every name has at most one parent, two cycles that share a name are the same
(`IsCycle.eq_of_mem`). The walks of `sort` report a path for every cycle of the parents
(`exists_reported`), and the paths of two reports have no name in common (`Reported.apart`).
-/

namespace ContractAbi.Inheritance

/-- A cycle of a relation: no name comes twice, and each is related to the next one, the last one to
the first. -/
structure IsCycle (step : String → String → Prop) (c : Cycle String) : Prop where
  nonempty : c ≠ Cycle.nil
  nodup : c.Nodup
  steps : c.Chain step

/-- A path once around a cycle: it ends with the name that it starts with, repeats no other one, and
each name is related to the one behind it. -/
structure IsCyclePath (step : String → String → Prop) (path : List String) : Prop where
  closed : ∃ first inner, path = first :: inner ++ [first]
  nodup : path.dropLast.Nodup
  steps : path.IsChain step

variable {step : String → String → Prop}

/-- A cycle may be read from any of its names on. -/
theorem exists_eq_coe_cons {c : Cycle String} {name : String} (member : name ∈ c) :
    ∃ rest : List String, c = ↑(name :: rest) := by
  induction c using Quotient.inductionOn' with
  | h names =>
    obtain ⟨front, back, rfl⟩ := List.append_of_mem member
    exact ⟨back ++ front, Cycle.coe_eq_coe.mpr List.isRotated_append⟩

theorem exists_mem_of_ne_nil {c : Cycle String} (nonempty : c ≠ Cycle.nil) : ∃ name, name ∈ c := by
  induction c with
  | nil => exact absurd rfl nonempty
  | cons name names _ => exact ⟨name, List.mem_cons_self⟩

namespace IsCycle

variable {c d : Cycle String} {name : String}

theorem exists_next (h : IsCycle step c) (member : name ∈ c) : ∃ next ∈ c, step name next := by
  obtain ⟨rest, rfl⟩ := exists_eq_coe_cons member
  have steps : List.IsChain step (name :: (rest ++ [name])) := h.steps
  cases rest with
  | nil => exact ⟨name, member, List.isChain_pair.mp steps⟩
  | cons next rest =>
    have second : next ∈ name :: next :: rest := List.mem_cons_of_mem _ List.mem_cons_self
    exact ⟨next, second, (List.isChain_cons_cons.mp steps).1⟩

/-- Where a name is related to one name at most, the way from one name to another is determined. -/
theorem way_unique (functional : ∀ n p q, step n p → step n q → p = q) {start goal : String}
    {xs ys : List String} (first : List.IsChain step (start :: (xs ++ [goal])))
    (second : List.IsChain step (start :: (ys ++ [goal]))) (offFirst : goal ∉ xs)
    (offSecond : goal ∉ ys) : xs = ys := by
  -- Both ways take the same steps, and neither passes the goal before the other one reaches it.
  induction xs generalizing start ys with
  | nil =>
    cases ys with
    | nil => rfl
    | cons y ys =>
      have same := functional _ _ _ (List.isChain_cons_cons.mp first).1
        (List.isChain_cons_cons.mp second).1
      exact absurd (same ▸ List.mem_cons_self) offSecond
  | cons x xs ih =>
    cases ys with
    | nil =>
      have same := functional _ _ _ (List.isChain_cons_cons.mp second).1
        (List.isChain_cons_cons.mp first).1
      exact absurd (same ▸ List.mem_cons_self) offFirst
    | cons y ys =>
      obtain ⟨toX, restX⟩ := List.isChain_cons_cons.mp first
      obtain ⟨toY, restY⟩ := List.isChain_cons_cons.mp second
      have same := functional _ _ _ toX toY
      subst same
      rw [ih restX restY (fun member => offFirst (List.mem_cons_of_mem _ member))
        (fun member => offSecond (List.mem_cons_of_mem _ member))]

/-- Where each name has one next name, cycles with a common name are the same. -/
theorem eq_of_mem (functional : ∀ n p q, step n p → step n q → p = q) (hc : IsCycle step c)
    (hd : IsCycle step d) (inC : name ∈ c) (inD : name ∈ d) : c = d := by
  obtain ⟨xs, rfl⟩ := exists_eq_coe_cons inC
  obtain ⟨ys, rfl⟩ := exists_eq_coe_cons inD
  have offXs : name ∉ xs := (List.nodup_cons.mp (Cycle.nodup_coe_iff.mp hc.nodup)).1
  have offYs : name ∉ ys := (List.nodup_cons.mp (Cycle.nodup_coe_iff.mp hd.nodup)).1
  rw [way_unique functional hc.steps hd.steps offXs offYs]

end IsCycle

namespace IsCyclePath

variable {path : List String} {name : String}

/-- The cycle that a path goes around. -/
theorem isCycle (h : IsCyclePath step path) : IsCycle step (path.dropLast : Cycle String) := by
  obtain ⟨first, inner, rfl⟩ := h.closed
  have nodup := h.nodup
  rw [List.dropLast_concat] at nodup ⊢
  refine ⟨?_, Cycle.nodup_coe_iff.mpr nodup, h.steps⟩
  exact fun none => List.cons_ne_nil _ _ ((Cycle.coe_eq_nil _).mp none)

theorem exists_closer (h : IsCyclePath step path) : ∃ name, closer? path = some name := by
  obtain ⟨first, inner, rfl⟩ := h.closed
  rw [closer?, List.dropLast_concat]
  exact ⟨_, List.getLast?_eq_some_getLast (List.cons_ne_nil _ _)⟩

/-- The step that closes a path is its last one. -/
theorem closer?_eq_some_iff (functional : ∀ n p q, step n p → step n q → p = q)
    (h : IsCyclePath step path) {p : String} (stepped : step name p) :
    closer? path = some name ↔ [name, p] <:+ path := by
  rw [closer?, List.getLast?_eq_some_iff]
  constructor
  · rintro ⟨before, front⟩
    obtain ⟨first, inner, rfl⟩ := h.closed
    rw [List.dropLast_concat] at front
    have whole : first :: inner ++ [first] = before ++ [name, first] := by
      rw [front, List.append_assoc]
      rfl
    have last : List.IsChain step [name, first] := by
      have steps := h.steps
      rw [whole] at steps
      exact steps.right_of_append
    have same := functional _ _ _ stepped (List.isChain_pair.mp last)
    rw [same, whole]
    exact List.suffix_append _ _
  · rintro ⟨before, rfl⟩
    have split : before ++ [name, p] = (before ++ [name]) ++ [p] := by
      rw [List.append_assoc]
      rfl
    exact ⟨before, split ▸ List.dropLast_concat⟩

end IsCyclePath

variable {parent : String → Option String} {names : List String}

/-- What a walk reports that comes back to an interface of its path. -/
theorem isCyclePath_cycleOf {top p : String} {above : List String}
    (ascent : IsAscent parent (top :: above)) (distinct : (top :: above).Nodup)
    (back : parent top = some p) (onPath : p ∈ top :: above) :
    IsCyclePath (fun name q => parent name = some q) (cycleOf (top :: above) p) := by
  -- The cycle is the path from its top down to the first place of `p`.
  obtain ⟨front, rest, split, notFront⟩ := List.eq_append_cons_of_mem onPath
  have taken : (top :: above).takeWhile (· != p) = front := by
    rw [split, List.takeWhile_append_of_pos]
    · simp
    · intro n member
      have different : n ≠ p := fun same => notFront (same ▸ member)
      simpa using different
  have ascentFront : IsAscent parent (front ++ [p]) := by
    refine ascent.prefix ⟨rest, ?_⟩
    rw [split, List.append_assoc]
    rfl
  unfold cycleOf
  rw [taken]
  refine ⟨⟨p, front.reverse, rfl⟩, ?_, ?_⟩
  · rw [List.dropLast_concat, List.nodup_cons, List.mem_reverse, List.nodup_reverse]
    rw [split] at distinct
    exact ⟨notFront, (List.nodup_append.mp distinct).1⟩
  · -- Read backwards, the path is the way up to `p` behind the step that closes it.
    rw [← List.reverse_reverse (p :: front.reverse ++ [p]), List.isChain_reverse]
    have backwards : (p :: front.reverse ++ [p]).reverse = p :: (front ++ [p]) := by simp
    rw [backwards]
    cases front with
    | nil =>
      have same : top = p := (List.cons.inj split).1
      exact List.isChain_pair.mpr (same ▸ back)
    | cons first front =>
      have same : top = first := (List.cons.inj split).1
      exact List.isChain_cons_cons.mpr ⟨same ▸ back, ascentFront⟩

/-- What the reports of the walks so far keep. -/
structure Reported (parent : String → Option String) (s : Sorted) : Prop where
  path : ∀ path ∈ s.cycles, IsCyclePath (fun name p => parent name = some p) path
  /-- Cycles lie in the paths of finished walks. -/
  passed : ∀ path ∈ s.cycles, ∀ name ∈ path, name ∈ s.order
  /-- No interface is reported twice. -/
  apart : s.cycles.Pairwise List.Disjoint

namespace Reported

variable {s : Sorted}

theorem start (parent : String → Option String) (names : List String) :
    Reported parent ⟨[], names, []⟩ where
  path := by simp
  passed := by simp
  apart := .nil

/-- A walk reports nothing or a path around a cycle that lies in its own path. -/
theorem of_stop {top : String} {above : List String} {c : Climb} (path : c.path = top :: above)
    (ascent : IsAscent parent c.path) (distinct : c.path.Nodup) (stop : Stop parent top c) :
    ∀ cycle ∈ c.cycle.toList, IsCyclePath (fun name p => parent name = some p) cycle ∧
      ∀ name ∈ cycle, name ∈ c.path := by
  intro cycle reported
  rw [Option.mem_toList] at reported
  cases stop with
  | root _ silent => rw [silent] at reported; cases reported
  | known _ _ _ _ silent => rw [silent] at reported; cases reported
  | closed p back onPath _ found =>
    have same : cycle = cycleOf c.path p := Option.some.inj (reported.symm.trans found)
    subst same
    constructor
    · rw [path] at ascent distinct onPath ⊢
      exact isCyclePath_cycleOf ascent distinct back onPath
    · intro name member
      simp only [cycleOf, List.cons_append, List.mem_cons, List.mem_append, List.mem_reverse,
        List.not_mem_nil, or_false] at member
      rcases member with rfl | inFront | rfl
      · exact onPath
      · exact List.takeWhile_subset _ inFront
      · exact onPath

/-- One walk: the cycle that it may report shares no interface with those of earlier walks. -/
theorem visit (h : Reported parent s) (progress : Progress parent names s)
    (distinct : names.Nodup) (name : String) : Reported parent (visit parent s name) := by
  obtain ⟨_, same⟩ | ⟨c, walk, added⟩ := visit_cases parent (progress.nodup_fresh distinct) name
  · rw [same]
    exact h
  · obtain ⟨top, above, path, stop⟩ := walk.stop
    have all : (s.order ++ s.fresh).Nodup := progress.perm.nodup_iff.mpr distinct
    have distinctPath : c.path.Nodup :=
      (List.nodup_append.mp (walk.perm.nodup_iff.mpr (List.nodup_append.mp all).2.1)).1
    -- The path is made of fresh names, and what is reported lies among names that are not fresh.
    have unpassed : ∀ n ∈ c.path, n ∉ s.order := fun n onPath inOrder =>
      (List.nodup_append.mp all).2.2 n inOrder n
        (walk.perm.mem_iff.mp (List.mem_append_left _ onPath)) rfl
    have new := of_stop path walk.ascent distinctPath stop
    rw [added]
    constructor
    · intro cycle reported
      rcases List.mem_append.mp reported with earlier | now
      · exact h.path cycle earlier
      · exact (new cycle now).1
    · intro cycle reported n member
      rcases List.mem_append.mp reported with earlier | now
      · exact List.mem_append_left _ (h.passed cycle earlier n member)
      · exact List.mem_append_right _ ((new cycle now).2 n member)
    · refine List.pairwise_append.mpr ⟨h.apart, ?_, ?_⟩
      · cases c.cycle with
        | none => exact .nil
        | some cycle => exact List.pairwise_singleton _ _
      · intro earlier reported cycle now n inEarlier inNow
        exact unpassed n ((new cycle now).2 n inNow) (h.passed earlier reported n inEarlier)

/-- What the reports keep, they keep from walk to walk. -/
theorem foldl_visit (h : Reported parent s) (progress : Progress parent names s)
    (distinct : names.Nodup) (inNames : ∀ n p, parent n = some p → p ∈ names)
    (todo : List String) : Reported parent (todo.foldl (Inheritance.visit parent) s) := by
  induction todo generalizing s with
  | nil => exact h
  | cons name todo ih =>
    exact ih (h.visit progress distinct name) (progress.visit distinct inNames name)

/-- An interface is on one reported path at most. -/
theorem path_unique (h : Reported parent s) {path other : List String} (reported : path ∈ s.cycles)
    (otherReported : other ∈ s.cycles) {name : String} (inPath : name ∈ path)
    (inOther : name ∈ other) : path = other := by
  by_contra different
  have : Std.Symm (List.Disjoint : List String → List String → Prop) :=
    ⟨fun _ _ disjoint => disjoint.symm⟩
  exact h.apart.forall reported otherReported different inPath inOther

end Reported

theorem reported_sort (distinct : names.Nodup) (inNames : ∀ n p, parent n = some p → p ∈ names) :
    Reported parent (sort parent names) :=
  (Reported.start parent names).foldl_visit (Progress.start parent names) distinct inNames names

/-- Every cycle loses a step. -/
theorem exists_dropped (distinct : names.Nodup) (inNames : ∀ n p, parent n = some p → p ∈ names)
    (fromNames : ∀ n p, parent n = some p → n ∈ names) {c : Cycle String}
    (h : IsCycle (fun name p => parent name = some p) c) :
    ∃ name ∈ c, name ∈ (sort parent names).cycles.filterMap closer? := by
  by_contra kept
  push Not at kept
  have perm := perm_order_sort distinct inNames
  have progress := progress_sort distinct inNames
  -- Each name of the cycle would stand behind its parent in the order, so that no place is left for
  -- the first one.
  have descent : ∀ k, ∀ name ∈ c, (sort parent names).order.idxOf name ≠ k := by
    intro k
    induction k using Nat.strong_induction_on with
    | _ k ih =>
      rintro name member rfl
      obtain ⟨p, onCycle, step⟩ := h.exists_next member
      have placed := progress.placed name (perm.mem_iff.mpr (fromNames name p step)) p step
      rcases placed with before | dropped
      · exact ih _ (before.idxOf_lt (perm.nodup_iff.mpr distinct)) p onCycle rfl
      · exact kept name member dropped
  obtain ⟨name, member⟩ := exists_mem_of_ne_nil h.nonempty
  exact descent _ name member rfl

/-- All cycles are reported in the end. -/
theorem exists_reported (distinct : names.Nodup) (inNames : ∀ n p, parent n = some p → p ∈ names)
    (fromNames : ∀ n p, parent n = some p → n ∈ names) {c : Cycle String}
    (h : IsCycle (fun name p => parent name = some p) c) :
    ∃ path ∈ (sort parent names).cycles, (path.dropLast : Cycle String) = c := by
  -- The path that the dropped step closes goes around a cycle through the same name.
  obtain ⟨name, member, dropped⟩ := exists_dropped distinct inNames fromNames h
  obtain ⟨path, reported, closer⟩ := List.mem_filterMap.mp dropped
  have isPath := (reported_sort distinct inNames).path path reported
  have functional : ∀ n p q, parent n = some p → parent n = some q → p = q :=
    fun _ _ _ first second => Option.some.inj (first.symm.trans second)
  exact ⟨path, reported,
    isPath.isCycle.eq_of_mem functional h (List.mem_of_getLast? closer) member⟩

end ContractAbi.Inheritance
