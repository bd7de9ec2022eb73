import ContractAbi.Proofs.Inheritance.Cycles
import ContractAbi.Proofs.Inheritance.Resolved

/-!
# Missing parents and broken cycles

Resolving a document drops a step to a parent for two reasons only, and reports both. A parent that
is not declared is missing. Of each cycle of declared parents one step is dropped, and one warning
holds the path around the cycle that the step closes. What is left has no cycle.
-/

namespace ContractAbi

/-- The cycle that a warning reports. -/
def Warning.cycle? : Warning → Option (Cycle String)
  | .cycleDetected path => some path.dropLast
  | _ => none

namespace Inheritance

variable {doc : Document}

theorem extends_functional (doc : Document) (name p q : String) (first : doc.Extends name p)
    (second : doc.Extends name q) : p = q :=
  Option.some.inj (first.1.symm.trans second.1)

theorem mem_interfaceNames_of_extends {name p : String} (step : doc.Extends name p) :
    name ∈ doc.interfaceNames := by
  obtain ⟨i, found, -⟩ := Option.bind_eq_some_iff.mp step.1
  have named : i.name = name := by simpa using List.find?_some found
  exact named ▸ List.mem_map_of_mem (List.mem_of_find?_eq_some found)

theorem declaredParent_step (doc : Document) :
    (fun name p => declaredParent (firstDeclared [] doc.interfaces) name = some p) =
      doc.Extends := by
  funext name p
  exact propext declaredParent_eq_some_iff

/-- The walks through a document report what lies on a cycle. -/
theorem reported_walks (doc : Document) :
    Reported (declaredParent (firstDeclared [] doc.interfaces)) (walks doc) :=
  reported_sort (nodup_names_firstDeclared _ _) fun _ _ => mem_names_of_declaredParent

/-- What is reported is the path of a cycle. -/
theorem isCyclePath_walks {path : List String} (reported : path ∈ (walks doc).cycles) :
    IsCyclePath doc.Extends path := by
  have isPath := (reported_walks doc).path path reported
  rwa [declaredParent_step] at isPath

/-- Each cycle is reported. -/
theorem exists_walks_of_isCycle {c : Cycle String} (h : IsCycle doc.Extends c) :
    ∃ path ∈ (walks doc).cycles, (path.dropLast : Cycle String) = c := by
  rw [← declaredParent_step] at h
  refine exists_reported (nodup_names_firstDeclared _ _)
    (fun _ _ => mem_names_of_declaredParent) ?_ h
  intro name p step
  exact mem_interfaceNames.mpr (mem_interfaceNames_of_extends (declaredParent_eq_some_iff.mp step))

theorem mem_dropped {name : String} :
    name ∈ dropped doc ↔ ∃ path ∈ (walks doc).cycles, closer? path = some name :=
  List.mem_filterMap

/-- A dropped step is the last one of a reported path. -/
theorem mem_dropped_iff_suffix {name p : String} (step : doc.Extends name p) :
    name ∈ dropped doc ↔ ∃ path ∈ (walks doc).cycles, [name, p] <:+ path := by
  rw [mem_dropped]
  refine exists_congr fun path => and_congr_right fun reported => ?_
  exact (isCyclePath_walks reported).closer?_eq_some_iff (extends_functional doc) step

/-- Of the interfaces of a cycle exactly one loses its step. -/
theorem existsUnique_mem_dropped {c : Cycle String} (h : IsCycle doc.Extends c) :
    ∃! name, name ∈ c ∧ name ∈ dropped doc := by
  obtain ⟨path, reported, rfl⟩ := exists_walks_of_isCycle h
  have isPath := isCyclePath_walks reported
  obtain ⟨name, closes⟩ := isPath.exists_closer
  refine ⟨name, ⟨List.mem_of_getLast? closes, mem_dropped.mpr ⟨path, reported, closes⟩⟩, ?_⟩
  rintro other ⟨member, otherDropped⟩
  obtain ⟨otherPath, otherReported, otherCloses⟩ := mem_dropped.mp otherDropped
  -- The other name is on the cycle, so that its report shares a name with the report of the cycle.
  have same : otherPath = path := (reported_walks doc).path_unique otherReported reported
    (List.dropLast_subset _ (List.mem_of_getLast? otherCloses)) (List.dropLast_subset _ member)
  rw [same] at otherCloses
  exact Option.some.inj (otherCloses.symm.trans closes)

theorem eq_missingParent_of_mem {decls : List Interface} {w : Warning}
    (member : w ∈ missingParents decls) : ∃ name p, w = .missingParent name p := by
  obtain ⟨i, -, found⟩ := List.mem_filterMap.mp member
  split at found
  · rename_i p _
    split at found
    · cases found
    · exact ⟨i.name, p, (Option.some.inj found).symm⟩
  · cases found

/-- Who asks for other warnings finds none among those on missing parents. -/
theorem filterMap_missingParents {β : Type} {f : Warning → Option β}
    (other : ∀ name p, f (.missingParent name p) = none) (decls : List Interface) :
    (missingParents decls).filterMap f = [] := by
  refine List.filterMap_eq_nil_iff.mpr fun w member => ?_
  obtain ⟨name, p, rfl⟩ := eq_missingParent_of_mem member
  exact other name p

theorem eq_danglingReference_of_mem {decls : List Interface} {w : Warning}
    (member : w ∈ decls.flatMap (danglingReferences doc)) :
    ∃ name kind n, w = .danglingReference name kind n := by
  obtain ⟨i, -, listed⟩ := List.mem_flatMap.mp member
  simp only [danglingReferences, dangling, List.mem_append, List.mem_map] at listed
  rcases listed with (⟨n, -, rfl⟩ | ⟨n, -, rfl⟩) | ⟨n, -, rfl⟩ <;> exact ⟨i.name, _, n, rfl⟩

/-- Parents that are written but not declared, and no others, are missing. -/
theorem mem_missingParents {name p : String} :
    .missingParent name p ∈ missingParents (firstDeclared [] doc.interfaces) ↔
      doc.writtenParent? name = some p ∧ p ∉ doc.interfaceNames := by
  rw [missingParents, List.mem_filterMap, ← mem_interfaceNames, ← isSome_lookup]
  constructor
  · rintro ⟨i, member, found⟩
    split at found
    · rename_i q written
      split at found
      · cases found
      · rename_i missing
        cases found
        refine ⟨?_, missing⟩
        rw [Document.writtenParent?, mem_firstDeclared.mp member]
        exact written
    · cases found
  · rintro ⟨written, missing⟩
    obtain ⟨i, found, parent⟩ := Option.bind_eq_some_iff.mp written
    have named : i.name = name := by simpa using List.find?_some found
    subst named
    refine ⟨i, mem_firstDeclared.mpr found, ?_⟩
    simp only [parent, if_neg missing]

/-- Different interfaces count for different names, so that no two warnings are the same. -/
theorem nodup_missingParents (doc : Document) :
    (missingParents (firstDeclared [] doc.interfaces)).Nodup := by
  have distinct := List.pairwise_map.mp (nodup_names_firstDeclared [] doc.interfaces)
  rw [missingParents, List.Nodup, List.pairwise_filterMap]
  refine distinct.imp ?_
  intro i j different w first v second same
  subst same
  split at first
  · split at first
    · cases first
    · split at second
      · split at second
        · cases second
        · have same := (Option.some.inj first).trans (Option.some.inj second).symm
          exact different (Warning.missingParent.inj same).1
      · cases second
  · cases first

end Inheritance

namespace Graph

open Inheritance

/-- The cycles that the warnings of a graph report. -/
def reportedCycles (g : Graph) : List (Cycle String) := g.warnings.filterMap Warning.cycle?

theorem warnings_ofDocument (doc : Document) :
    (ofDocument doc).warnings = missingParents (firstDeclared [] doc.interfaces) ++
      (walks doc).cycles.map .cycleDetected ++
      (firstDeclared [] doc.interfaces).flatMap (danglingReferences doc) := rfl

variable {doc : Document}

/-- The paths in the warnings are those of the walks. -/
theorem cycleDetected_mem_warnings {path : List String} :
    .cycleDetected path ∈ (ofDocument doc).warnings ↔ path ∈ (walks doc).cycles := by
  rw [warnings_ofDocument, List.mem_append, List.mem_append, List.mem_map]
  constructor
  · rintro ((missing | ⟨_, reported, same⟩) | reference)
    · obtain ⟨_, _, different⟩ := eq_missingParent_of_mem missing
      cases different
    · cases same
      exact reported
    · obtain ⟨_, _, _, different⟩ := eq_danglingReference_of_mem reference
      cases different
  · exact fun reported => Or.inl (Or.inr ⟨path, reported, rfl⟩)

theorem reportedCycles_ofDocument (doc : Document) :
    (ofDocument doc).reportedCycles =
      (walks doc).cycles.map fun path => (path.dropLast : Cycle String) := by
  have missing : (missingParents (firstDeclared [] doc.interfaces)).filterMap Warning.cycle? =
      [] := filterMap_missingParents (fun _ _ => rfl) _
  have references : ((firstDeclared [] doc.interfaces).flatMap (danglingReferences doc)).filterMap
      Warning.cycle? = [] := by
    refine List.filterMap_eq_nil_iff.mpr fun w member => ?_
    obtain ⟨_, _, _, rfl⟩ := eq_danglingReference_of_mem member
    rfl
  rw [reportedCycles, warnings_ofDocument, List.filterMap_append, List.filterMap_append, missing,
    references, List.nil_append, List.append_nil, List.filterMap_map]
  exact congrFun List.filterMap_eq_map _

theorem nodup_reportedCycles (doc : Document) : (ofDocument doc).reportedCycles.Nodup := by
  rw [reportedCycles_ofDocument, List.Nodup, List.pairwise_map]
  refine (reported_walks doc).apart.imp_of_mem ?_
  intro path other reported _ disjoint same
  obtain ⟨name, closes⟩ := (isCyclePath_walks reported).exists_closer
  have member : name ∈ path.dropLast := List.mem_of_getLast? closes
  have otherMember : name ∈ other.dropLast := (Cycle.coe_eq_coe.mp same).mem_iff.mp member
  exact disjoint (List.dropLast_subset _ member) (List.dropLast_subset _ otherMember)

/-- The cycles in the warnings are the cycles of the document. -/
theorem mem_reportedCycles {c : Cycle String} :
    c ∈ (ofDocument doc).reportedCycles ↔ IsCycle doc.Extends c := by
  rw [reportedCycles_ofDocument, List.mem_map]
  constructor
  · rintro ⟨path, reported, rfl⟩
    exact (isCyclePath_walks reported).isCycle
  · exact exists_walks_of_isCycle

theorem count_missingParent (doc : Document) (name p : String) :
    (ofDocument doc).warnings.count (.missingParent name p) =
      if doc.writtenParent? name = some p ∧ p ∉ doc.interfaceNames then 1 else 0 := by
  have cycles : Warning.missingParent name p ∉ (walks doc).cycles.map .cycleDetected := by
    intro member
    obtain ⟨_, -, different⟩ := List.mem_map.mp member
    cases different
  have references : Warning.missingParent name p ∉
      (firstDeclared [] doc.interfaces).flatMap (danglingReferences doc) := by
    intro member
    obtain ⟨_, _, _, different⟩ := eq_danglingReference_of_mem member
    cases different
  rw [warnings_ofDocument, List.count_append, List.count_append,
    List.count_eq_zero_of_not_mem cycles, List.count_eq_zero_of_not_mem references,
    (nodup_missingParents doc).count]
  simp only [mem_missingParents, Nat.add_zero]

/-- A parent is kept where it does not close a cycle that was reported. -/
theorem parent?_eq_some_iff {name p : String} :
    (ofDocument doc).parent? name = some p ↔ doc.Extends name p ∧ name ∉ dropped doc := by
  rw [parent?_ofDocument_apply]
  by_cases gone : name ∈ dropped doc
  · simp [gone]
  · simp [gone, declaredParent_eq_some_iff]

/-- An interface that has a declared parent is without one only if its step was dropped. -/
theorem parent?_eq_none_iff {name p : String} (step : doc.Extends name p) :
    (ofDocument doc).parent? name = none ↔ name ∈ dropped doc := by
  rw [parent?_ofDocument_apply, declaredParent_eq_some_iff.mpr step]
  by_cases gone : name ∈ dropped doc <;> simp [gone]

theorem idxOf_lt_of_transGen {child ancestor : String}
    (way : Relation.TransGen (fun name p => (ofDocument doc).parent? name = some p)
      child ancestor) :
    (ofDocument doc).order.idxOf ancestor < (ofDocument doc).order.idxOf child := by
  induction way with
  | single step => exact idxOf_lt_of_parent? step
  | tail _ step ih => exact Nat.lt_trans (idxOf_lt_of_parent? step) ih

/-- What it means that a graph drops no more steps to parents than it must, and reports them. -/
structure BreaksCycles (doc : Document) (g : Graph) : Prop where
  /-- A declared parent is kept unless the step to it closes a path that is reported. -/
  keeps : ∀ name p, g.parent? name = some p ↔ doc.Extends name p ∧
    ¬ ∃ path, .cycleDetected path ∈ g.warnings ∧ [name, p] <:+ path
  missing : ∀ name p, g.warnings.count (.missingParent name p) =
    if doc.writtenParent? name = some p ∧ p ∉ doc.interfaceNames then 1 else 0
  path : ∀ path, .cycleDetected path ∈ g.warnings → IsCyclePath doc.Extends path
  once : g.reportedCycles.Nodup
  reported : ∀ c, c ∈ g.reportedCycles ↔ IsCycle doc.Extends c
  dropsOne : ∀ c, IsCycle doc.Extends c → ∃! name, name ∈ c ∧ g.parent? name = none
  acyclic : ∀ name, ¬ Relation.TransGen (fun child p => g.parent? child = some p) name name

/-- The graph of a document keeps all parents but one in each cycle. It reports each cycle once and
each missing parent once, and it has no cycle itself. -/
theorem breaksCycles_ofDocument (doc : Document) : BreaksCycles doc (ofDocument doc) where
  keeps := by
    intro name p
    rw [parent?_eq_some_iff]
    refine and_congr_right fun step => not_congr ?_
    rw [mem_dropped_iff_suffix step]
    simp only [cycleDetected_mem_warnings]
  missing := count_missingParent doc
  path := fun path reported => isCyclePath_walks (cycleDetected_mem_warnings.mp reported)
  once := nodup_reportedCycles doc
  reported := fun _ => mem_reportedCycles
  dropsOne := by
    intro c h
    have dropsStep : ∀ name, name ∈ c ∧ (ofDocument doc).parent? name = none ↔
        name ∈ c ∧ name ∈ dropped doc := by
      intro name
      refine and_congr_right fun member => ?_
      obtain ⟨p, -, step⟩ := h.exists_next member
      exact parent?_eq_none_iff step
    simp only [dropsStep]
    exact existsUnique_mem_dropped h
  acyclic := fun _ way => Nat.lt_irrefl _ (idxOf_lt_of_transGen way)

/-- A way into a cycle is no part of it, and an interface may be its own parent. -/
example : (ofDocument ⟨[⟨"tail", some "a", none, [], [], []⟩, ⟨"a", some "b", none, [], [], []⟩,
    ⟨"b", some "a", none, [], [], []⟩, ⟨"self", some "self", none, [], [], []⟩], [], []⟩).warnings =
      [.cycleDetected ["a", "b", "a"], .cycleDetected ["self", "self"]] := by
  decide +kernel

end Graph

end ContractAbi
