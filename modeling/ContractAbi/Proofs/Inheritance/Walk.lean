import Mathlib.Data.List.Chain
import ContractAbi.Inheritance.Graph

/-!
# Walks towards ancestors

`climb` follows parents from one interface. Three facts say all that it does: it moves fresh
interfaces to the front of its path and loses none (`exists_climb_path`), its path leads from each
interface to its parent (`isAscent_climb`), and it stops for one of three reasons (`climb_stop`).
A visit adds such a walk or changes nothing (`visit_cases`).
-/

namespace ContractAbi.Inheritance

variable (parent : String → Option String)

/-- Each interface of the path is the parent of the one behind it. -/
def IsAscent (parent : String → Option String) (path : List String) : Prop :=
  path.IsChain fun ancestor name => parent name = some ancestor

/-- The cycle that a path closes when its first interface has the parent `p`. -/
def cycleOf (path : List String) (p : String) : List String :=
  p :: (path.takeWhile (· != p)).reverse ++ [p]

/-- Why a walk ends at `top`: there is no parent, an earlier walk passed the parent, or this walk
did, which closes a cycle. -/
inductive Stop (parent : String → Option String) (top : String) (c : Climb) : Prop
  | root : parent top = none → c.cycle = none → Stop parent top c
  | known (p : String) : parent top = some p → p ∉ c.path → p ∉ c.fresh → c.cycle = none →
      Stop parent top c
  | closed (p : String) : parent top = some p → p ∈ c.path → p ∉ c.fresh →
      c.cycle = some (cycleOf c.path p) → Stop parent top c

theorem exists_climb_path (fresh path : List String) (node : String) :
    ∃ passed, (climb parent fresh path node).path = passed ++ path ∧
      (passed ++ (climb parent fresh path node).fresh).Perm fresh := by
  fun_induction climb parent fresh path node with
  | case1 fresh path node root => exact ⟨[], rfl, .refl _⟩
  | case2 fresh path node p step isFresh ih =>
    obtain ⟨passed, grown, kept⟩ := ih
    refine ⟨passed ++ [p], ?_, ?_⟩
    · rw [grown, List.append_assoc, List.singleton_append]
    · rw [List.append_assoc]
      exact List.perm_middle.trans ((kept.cons p).trans (List.perm_cons_erase isFresh).symm)
  | case3 fresh path node p step notFresh onPath => exact ⟨[], rfl, .refl _⟩
  | case4 fresh path node p step notFresh offPath => exact ⟨[], rfl, .refl _⟩

theorem isAscent_climb (fresh rest : List String) (node : String)
    (ascent : IsAscent parent (node :: rest)) :
    IsAscent parent (climb parent fresh (node :: rest) node).path := by
  generalize start : node :: rest = path at ascent ⊢
  fun_induction climb parent fresh path node generalizing rest with
  | case1 | case3 | case4 => exact ascent
  | case2 fresh path node p step isFresh ih =>
    subst start
    exact ih (node :: rest) rfl (List.isChain_cons_cons.mpr ⟨step, ascent⟩)

/-- A walk stops at a name whose parent, if it has one, is not fresh any more. -/
theorem climb_stop (fresh rest : List String) (node : String) (distinct : fresh.Nodup) :
    ∃ top above, (climb parent fresh (node :: rest) node).path = top :: above ∧
      Stop parent top (climb parent fresh (node :: rest) node) := by
  generalize start : node :: rest = path
  fun_induction climb parent fresh path node generalizing rest with
  | case1 fresh path node root => exact ⟨node, rest, start.symm, .root root rfl⟩
  | case2 fresh path node p step isFresh ih =>
    exact ih path (distinct.erase p) rfl
  | case3 fresh path node p step notFresh onPath =>
    exact ⟨node, rest, start.symm, .closed p step onPath notFresh rfl⟩
  | case4 fresh path node p step notFresh offPath =>
    exact ⟨node, rest, start.symm, .known p step offPath notFresh rfl⟩

/-- What a walk from one of the fresh interfaces comes to. -/
structure IsWalk (parent : String → Option String) (fresh : List String) (name : String)
    (c : Climb) : Prop where
  /-- The path is taken out of the fresh interfaces. -/
  perm : (c.path ++ c.fresh).Perm fresh
  start : name ∈ c.path
  ascent : IsAscent parent c.path
  stop : ∃ top above, c.path = top :: above ∧ Stop parent top c

theorem isWalk_climb {fresh : List String} {name : String} (distinct : fresh.Nodup)
    (isFresh : name ∈ fresh) :
    IsWalk parent fresh name (climb parent (fresh.erase name) [name] name) := by
  obtain ⟨passed, grown, kept⟩ := exists_climb_path parent (fresh.erase name) [name] name
  constructor
  · rw [grown, List.append_assoc]
    exact List.perm_middle.trans ((kept.cons name).trans (List.perm_cons_erase isFresh).symm)
  · rw [grown]
    exact List.mem_append_right _ (List.mem_singleton_self name)
  · exact isAscent_climb parent _ [] name (List.isChain_singleton name)
  · exact climb_stop parent _ [] name (distinct.erase name)

/-- A visit to a fresh interface adds a walk, and any other changes nothing. -/
theorem visit_cases {s : Sorted} (distinct : s.fresh.Nodup) (name : String) :
    (name ∉ s.fresh ∧ visit parent s name = s) ∨ ∃ c, IsWalk parent s.fresh name c ∧
      visit parent s name = ⟨s.order ++ c.path, c.fresh, s.cycles ++ c.cycle.toList⟩ := by
  by_cases isFresh : name ∈ s.fresh
  · exact .inr ⟨_, isWalk_climb parent distinct isFresh, if_pos isFresh⟩
  · exact .inl ⟨isFresh, if_neg isFresh⟩

/-- What is fresh after a walk was fresh before it, and is not the interface that it began with. -/
theorem mem_fresh_visit {s : Sorted} {name n : String} (distinct : s.fresh.Nodup)
    (member : n ∈ (visit parent s name).fresh) : n ∈ s.fresh ∧ n ≠ name := by
  obtain ⟨notFresh, same⟩ | ⟨c, walk, added⟩ := visit_cases parent distinct name
  · rw [same] at member
    exact ⟨member, fun equal => notFresh (equal ▸ member)⟩
  · rw [added] at member
    have apart := (List.nodup_append.mp (walk.perm.nodup_iff.mpr distinct)).2.2
    exact ⟨walk.perm.mem_iff.mp (List.mem_append_right _ member),
      (apart name walk.start n member).symm⟩

/-- The step that closes a cycle is the one from the front of the path. -/
theorem closer?_cycleOf (top p : String) (above : List String) :
    closer? (cycleOf (top :: above) p) = some top := by
  unfold closer? cycleOf
  rw [List.dropLast_concat]
  by_cases same : top = p
  · simp [same]
  · rw [List.takeWhile_cons_of_pos (by simpa using same), List.reverse_cons, ← List.cons_append,
      List.getLast?_concat]

end ContractAbi.Inheritance
