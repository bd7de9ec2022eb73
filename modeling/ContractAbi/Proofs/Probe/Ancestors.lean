import ContractAbi.Proofs.Contract.Query
import ContractAbi.Proofs.Inheritance.Ancestors
import ContractAbi.Proofs.Probe.Concurrent
import ContractAbi.Proofs.Probe.Registered

/-!
# Checks of ancestors

The query of an inherited get-method is the same in the class of the interface and in the class of
its ancestor, up to the names of generated code, so that both probes are the same session
(`Registry.runQuery_eq`). With a memoryless runtime an address that has an interface therefore has
all ancestors of it; a detection does not find them, for it comes upon the interface first.
-/

namespace ContractAbi

open Binding (Model Query)

namespace Contract

variable {c d : Contract} {method : String} {p q : Query}

theorem probeQuery_of_query? (found : c.type.query? method = some q) :
    c.probeQuery method = discard (liftM (q.checkArgs q.defaultArgs) >>= fun _ =>
      c.invoke method q.defaultArgs >>= fun items => liftM (q.readResults items)) := by
  rw [probeQuery_eq_discard found]
  simp only [query, queryOf, found, Access.ok_bind]

theorem invoke_congr (address : c.address = d.address) : c.invoke = d.invoke := by
  funext method args
  rw [invoke, address, ← invoke]

/-- A probe of a query depends on the address and the shape of the query only. -/
theorem probeQuery_congr (address : c.address = d.address)
    (found : c.type.query? method = some p) (alsoFound : d.type.query? method = some q)
    (shape : p.shape = q.shape) : c.probeQuery method = d.probeQuery method := by
  obtain ⟨name, inputs, outputs⟩ :
      p.method = q.method ∧ p.inputs = q.inputs ∧ p.result.fields = q.result.fields := by
    simpa [Query.shape] using shape
  have args : p.defaultArgs = q.defaultArgs := by rw [Query.defaultArgs, inputs, ← Query.defaultArgs]
  have checks : p.checkArgs = q.checkArgs := by
    funext args
    rw [Query.checkArgs, name, inputs, ← Query.checkArgs]
  have results : p.readResults = q.readResults := by
    funext items
    rw [Query.readResults, name, outputs, ← Query.readResults]
  rw [probeQuery_of_query? found, probeQuery_of_query? alsoFound, invoke_congr address, args, checks,
    results]

end Contract

namespace Registry

variable {doc : Document} {c a : Binding.Class} {R : Runtime}

/-- Two classes with a query of one name have the same probe of it. -/
theorem runQuery_eq (member : c ∈ (Model.ofDocument doc).classes)
    (alsoMember : a ∈ (Model.ofDocument doc).classes) {method : String}
    (listed : method ∈ c.queries.map (·.method)) (alsoListed : method ∈ a.queries.map (·.method))
    (address : Address) : (⟨a, address⟩ : Contract).target.runQuery method =
      (⟨c, address⟩ : Contract).target.runQuery method := by
  -- Both queries have the shape of the first get-method of the name.
  obtain ⟨p, inClass, rfl⟩ := List.mem_map.mp listed
  obtain ⟨q, inAncestor, same⟩ := List.mem_map.mp alsoListed
  obtain ⟨g, first, shape⟩ := Model.exists_getMethod member inClass
  obtain ⟨h, alsoFirst, alsoShape⟩ := Model.exists_getMethod alsoMember inAncestor
  rw [same, first] at alsoFirst
  cases alsoFirst
  have ofAncestor := Model.query?_of_mem alsoMember inAncestor
  rw [same] at ofAncestor
  have probes := Contract.probeQuery_congr (c := ⟨a, address⟩) (d := ⟨c, address⟩) rfl ofAncestor
    (Model.query?_of_mem member inClass) (alsoShape.trans shape.symm)
  simp only [Contract.target, probes]

/-- On a runtime without a memory, a check by name is the report of the contract. -/
theorem run_check (memoryless : R.Memoryless) (member : c ∈ (Model.ofDocument doc).classes)
    (address : Address) (history : List Call) :
    (((ofDocument doc).check address c.interface).run R history).1 =
      some ((⟨c, address⟩ : Contract).target.report R) := by
  rw [check, contract?_of_mem member, Session.run_memoryless memoryless]
  exact Session.value_map memoryless _ _

/-- A class with no other get-methods than one that is implemented is implemented, if there is
something to probe. -/
theorem verdict_of_subset (memoryless : R.Memoryless)
    (member : c ∈ (Model.ofDocument doc).classes) (alsoMember : a ∈ (Model.ofDocument doc).classes)
    (subset : a.queries.map (·.method) ⊆ c.queries.map (·.method)) {address : Address}
    (implemented : ((⟨c, address⟩ : Contract).target.report R).verdict = .implemented) :
    ((⟨a, address⟩ : Contract).target.report R).verdict =
      if a.isEmpty then .inconclusive else .implemented := by
  have noProbes : (⟨a, address⟩ : Contract).target.NoProbes ↔ a.isEmpty = true := by
    simp [Target.NoProbes, Contract.target, Binding.Class.isEmpty]
  by_cases empty : a.isEmpty = true
  · rw [if_pos empty]
    exact (Target.verdict_report_eq_inconclusive_iff _ R).mpr (noProbes.mpr empty)
  · rw [if_neg empty]
    apply (Target.verdict_report_eq_implemented_iff memoryless _).mpr
    refine ⟨fun nothing => empty (noProbes.mp nothing), ?_⟩
    intro method listed
    have passed := ((Target.verdict_report_eq_implemented_iff memoryless _).mp implemented).2
    rw [runQuery_eq member alsoMember (subset listed) listed]
    exact passed method (subset listed)

theorem map_interface_contracts (doc : Document) (address : Address) :
    ((ofDocument doc).contracts address).map (·.type.interface) = (ofDocument doc).interfaces := by
  rw [contracts, interfaces, entries_ofDocument]
  simp

theorem mem_contracts {contract : Contract} {address : Address} :
    contract ∈ (ofDocument doc).contracts address ↔
      ∃ c ∈ (Model.ofDocument doc).classes, ⟨c, address⟩ = contract := by
  rw [contracts, entries_ofDocument]
  simp

/-- Behind an interface that is implemented no other one is found. -/
theorem interface_ne_of_detect (memoryless : R.Memoryless)
    (member : c ∈ (Model.ofDocument doc).classes) {address : Address}
    (implemented : ((⟨c, address⟩ : Contract).target.report R).verdict = .implemented)
    {other : String}
    (behind : (ofDocument doc).interfaces.idxOf c.interface < (ofDocument doc).interfaces.idxOf other)
    {history : List Call} {d : Detection}
    (found : (((ofDocument doc).detect address).run R history).1 = some d) :
    d.report.interface ≠ other := by
  rw [run_detect memoryless] at found
  obtain ⟨report, front, back, split, others⟩ := exists_split_of_firstImplemented found
  have names := map_interface_contracts doc address
  have distinct := nodup_interfaces (ofDocument doc)
  rw [split, List.map_append, List.map_cons] at names
  rw [← names] at behind distinct
  -- The interface is not in front of what is found, for there nothing is implemented.
  have notFront : c.interface ∉ front.map (·.type.interface) := by
    intro listed
    obtain ⟨contract, early, same⟩ := List.mem_map.mp listed
    have vain := others contract early
    have inRegistry : contract ∈ (ofDocument doc).contracts address := by
      rw [split]
      exact List.mem_append_left _ early
    obtain ⟨a, alsoMember, rfl⟩ := mem_contracts.mp inRegistry
    have equal := List.inj_on_of_nodup_map (nodup_interfaces_classes doc) alsoMember member same
    rw [equal, Report.isImplemented, implemented] at vain
    cases vain
  -- In a list without repeats the interface would stand behind what is found.
  rintro rfl
  rw [report, Target.interface_report,
    show d.contract.target.interface = d.contract.type.interface from rfl] at behind
  have first : d.contract.type.interface ∉ front.map (·.type.interface) := fun listed =>
    (List.nodup_append.mp distinct).2.2 _ listed _ List.mem_cons_self rfl
  rw [List.idxOf_append_of_notMem notFront, List.idxOf_append_of_notMem first] at behind
  rw [List.idxOf_cons_self] at behind
  omega

/-- An address that has an interface has the ancestors of it, as far as there is something to probe;
they are registered behind the interface, and a detection does not find them. -/
theorem check_ancestors (doc : Document) {name : String}
    (complete : (Graph.ofDocument doc).ancestor? 64 name = none) {k : Nat} {ancestor : String}
    (above : (Graph.ofDocument doc).ancestor? (k + 1) name = some ancestor) :
    (ancestor ∈ (ofDocument doc).interfaces ∧
      (ofDocument doc).interfaces.idxOf name < (ofDocument doc).interfaces.idxOf ancestor) ∧
    ∀ (address : Address) (R : Runtime) (history : List Call) (report : Report),
      R.Memoryless →
      (((ofDocument doc).check address name).run R history).1 = some report →
      report.verdict = .implemented →
      (∃ members other, (Graph.ofDocument doc).members? ancestor = some members ∧
        (((ofDocument doc).check address ancestor).run R history).1 = some other ∧
        other.verdict = if members.isEmpty then .inconclusive else .implemented) ∧
      ∀ d, (((ofDocument doc).detect address).run R history).1 = some d →
        d.report.interface ≠ ancestor := by
  have before := Graph.before_ancestor above
  rw [← interfaces_ofDocument] at before
  have behind := before.idxOf_lt (nodup_interfaces _)
  obtain ⟨front, back, split, -, inBack⟩ := before
  refine ⟨⟨split ▸ List.mem_append_right front inBack, behind⟩, ?_⟩
  intro address R history report memoryless checked implemented
  -- Both interfaces have classes, and the checks run those of their members.
  obtain ⟨declared, ancestorDeclared⟩ := Graph.mem_interfaceNames_of_ancestor? above
  obtain ⟨c, member, rfl⟩ := Model.exists_class declared
  obtain ⟨a, alsoMember, rfl⟩ := Model.exists_class ancestorDeclared
  obtain ⟨members, found⟩ := Model.exists_members member
  obtain ⟨inherited, alsoFound⟩ := Model.exists_members alsoMember
  rw [run_check memoryless member] at checked
  cases checked
  refine ⟨⟨inherited, _, alsoFound, run_check memoryless alsoMember address history, ?_⟩, ?_⟩
  · -- The ancestor's queries are among those that have passed.
    have subset := Graph.members_subset complete above found alsoFound .getMethod
    rw [verdict_of_subset memoryless member alsoMember ?_ implemented]
    · rw [Members.isEmpty, ← Model.methods_queries alsoMember alsoFound,
        ← Model.messages_sends alsoMember alsoFound]
      simp [Binding.Class.isEmpty]
    · rw [Model.methods_queries member found, Model.methods_queries alsoMember alsoFound]
      exact subset
  · intro d detected
    exact interface_ne_of_detect memoryless member implemented behind detected

/-- An item has a base above it, and all of its ancestors are within the bound. -/
theorem check_ancestors_layered :
    (Graph.ofDocument Graph.layered).ancestor? 64 "item" = none ∧
      (Graph.ofDocument Graph.layered).ancestor? 1 "item" = some "base" ∧
      (ofDocument Graph.layered).interfaces.idxOf "item" <
        (ofDocument Graph.layered).interfaces.idxOf "base" ∧
      layeredRuntime.Memoryless ∧
      ∃ report other,
        (((ofDocument Graph.layered).check .zero "item").run layeredRuntime []).1 = some report ∧
        report.verdict = .implemented ∧
        (((ofDocument Graph.layered).check .zero "base").run layeredRuntime []).1 = some other ∧
        other.verdict = .implemented ∧
        ∀ d, (((ofDocument Graph.layered).detect .zero).run layeredRuntime []).1 = some d →
          d.report.interface ≠ "base" := by
  have complete : (Graph.ofDocument Graph.layered).ancestor? 64 "item" = none := by decide +kernel
  have above : (Graph.ofDocument Graph.layered).ancestor? (0 + 1) "item" = some "base" := by
    decide +kernel
  have memoryless : layeredRuntime.Memoryless := fun _ _ _ => rfl
  have verdict : (((ofDocument Graph.layered).check .zero "item").run layeredRuntime []).1.map
      (·.verdict) = some .implemented := by decide +kernel
  obtain ⟨report, checked, implemented⟩ := Option.map_eq_some_iff.mp verdict
  obtain ⟨⟨-, behind⟩, checks⟩ := check_ancestors Graph.layered complete above
  obtain ⟨⟨members, other, found, alsoChecked, alsoVerdict⟩, others⟩ :=
    checks .zero layeredRuntime [] report memoryless checked implemented
  have something : ((Graph.ofDocument Graph.layered).members? "base").map (·.isEmpty) =
      some false := by decide +kernel
  rw [found, Option.map_some] at something
  rw [Option.some.inj something, if_neg Bool.false_ne_true] at alsoVerdict
  exact ⟨complete, above, behind, memoryless, report, other, checked, implemented, alsoChecked,
    alsoVerdict, others⟩

end Registry

end ContractAbi
