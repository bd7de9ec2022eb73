import ContractAbi.Proofs.Inheritance.Lineage
import ContractAbi.Proofs.Probe.Memoryless
import ContractAbi.Session.Script

/-!
# Detections that check all interfaces at once

The checks of an address against the interfaces of a registry may run side by side, their calls in
any order. Once all of them are done, the first contract that has its interface is picked by the
order of the registry, whichever check was done first. With a memoryless runtime this is the
contract that a detection finds which checks one interface after the other and stops at the first
that is implemented (`Registry.detect_interleaved`).
-/

namespace ContractAbi

namespace Registry

open Interleaving

variable {R : Runtime}

/-- The checks of an address against all interfaces. -/
def checks (r : Registry) (address : Address) : List (Session Report) :=
  (r.contracts address).map fun c => probe c.target

/-- A survey runs the checks one after the other. -/
theorem steps_survey (R : Runtime) (r : Registry) (address : Address) (history : List Call) :
    Steps R ⟨r.checks address, history⟩
      ⟨((r.survey address).run R history).1.map .done, ((r.survey address).run R history).2⟩ :=
  steps_mapM R (fun c : Contract => probe c.target) (r.contracts address) history

theorem values_checks (R : Runtime) (r : Registry) (address : Address) (history : List Call) :
    Interleaving.values R ⟨r.checks address, history⟩ = reports (r.contracts address) R := by
  simp only [Interleaving.values, checks, List.map_map, reports]
  rfl

/-- However the checks take turns, they come to the same reports. -/
theorem eq_reports_of_ended (memoryless : R.Memoryless) {r : Registry} {address : Address}
    {history : List Call} {i : Interleaving Report} {found : List Report}
    (steps : Steps R ⟨r.checks address, history⟩ i) (ended : i.Ended found) :
    found = reports (r.contracts address) R := by
  rw [← ended.values, steps.values memoryless, values_checks]

/-- A survey on a runtime without a memory has the report of each contract. -/
theorem run_survey (memoryless : R.Memoryless) (r : Registry) (address : Address)
    (history : List Call) :
    ((r.survey address).run R history).1 = reports (r.contracts address) R :=
  eq_reports_of_ended memoryless (steps_survey R r address history) rfl

/-- The calls of a survey are all calls of the checks. -/
theorem length_allCalls_checks (memoryless : R.Memoryless) (r : Registry) (address : Address)
    (history : List Call) : (allCalls R ⟨r.checks address, history⟩).length =
      ((r.survey address).run R history).2.length := by
  have steps := steps_survey R r address history
  have ended : Ended ⟨((r.survey address).run R history).1.map .done,
    ((r.survey address).run R history).2⟩ ((r.survey address).run R history).1 := rfl
  rw [← (steps.perm memoryless).length_eq, ended.allCalls]

/-- Detection after all checks takes the first contract whose report says implemented. -/
theorem run_detectAfterAll (R : Runtime) (r : Registry) (address : Address)
    (history : List Call) : ((r.detectAfterAll address).run R history).1 =
      firstImplemented (r.contracts address) ((r.survey address).run R history).1 := by
  rw [detectAfterAll]
  exact congrArg Prod.fst (Session.run_bind R history (r.survey address) _)

/-- With a memoryless runtime, in whatever order the checks make their calls, they make no more
calls than a survey and only stop when all of them are done; what is then picked is what a detection
finds that stops at the first interface that is implemented. Its report is the first one of a survey
that says so. -/
theorem detect_interleaved (r : Registry) (address : Address) (memoryless : R.Memoryless)
    (history : List Call) :
    (∀ i, Steps R ⟨r.checks address, history⟩ i →
      i.history.length ≤ ((r.survey address).run R history).2.length ∧
      ((∃ j, Step R i j) ∨ ∃ found, i.Ended found) ∧
      ∀ found, i.Ended found →
        firstImplemented (r.contracts address) found = ((r.detect address).run R history).1) ∧
    ((r.detectAfterAll address).run R history).1 = ((r.detect address).run R history).1 ∧
    ((r.detect address).run R history).1.map (·.report) =
      ((r.survey address).run R history).1.find? (·.isImplemented) := by
  refine ⟨?_, ?_, ?_⟩
  · intro i steps
    refine ⟨?_, exists_step_or_ended R i, ?_⟩
    · rw [← length_allCalls_checks memoryless]
      exact steps.length_history_le memoryless
    · intro found ended
      rw [eq_reports_of_ended memoryless steps ended, run_detect memoryless]
  · rw [run_detectAfterAll, run_survey memoryless, run_detect memoryless]
  · rw [run_detect memoryless, run_survey memoryless, report_firstImplemented]

/-- A runtime at which every get-method of `Graph.layered` passes. -/
def layeredRuntime : Runtime :=
  Script.runtime ⟨[("own", .ok []), ("shared", .ok []), ("top", .ok [])], [], none, []⟩

/-- The check of the interface that is picked only begins when the other one is done. -/
theorem detect_interleaved_overtaken :
    layeredRuntime.Memoryless ∧
      ∃ item base i found, (ofDocument Graph.layered).checks .zero = [item, base] ∧
        Steps layeredRuntime ⟨[item, base], []⟩
          ⟨[item, .done (base.value layeredRuntime)], base.calls layeredRuntime⟩ ∧
        Steps layeredRuntime
          ⟨[item, .done (base.value layeredRuntime)], base.calls layeredRuntime⟩ i ∧
        i.Ended found ∧ found.map (·.isImplemented) = [true, true] ∧
        (firstImplemented ((ofDocument Graph.layered).contracts .zero) found).map
          (·.report.interface) = some "item" := by
  have memoryless : layeredRuntime.Memoryless := fun _ _ _ => rfl
  have two : ((ofDocument Graph.layered).checks .zero).length = 2 := by decide +kernel
  obtain ⟨item, base, both⟩ := List.length_eq_two.mp two
  let early := base.value layeredRuntime
  let late := item.run layeredRuntime (base.calls layeredRuntime)
  -- The base runs to its end, and only then the item begins.
  have first : Steps layeredRuntime ⟨[item, base], []⟩ ⟨[item, .done early], base.calls _⟩ :=
    steps_run layeredRuntime [item] [] base []
  have second : Steps layeredRuntime ⟨[item, .done early], base.calls _⟩
      ⟨[.done late.1, .done early], late.2⟩ :=
    steps_run layeredRuntime [] [.done early] item (base.calls layeredRuntime)
  have ended : Ended ⟨[.done late.1, .done early], late.2⟩ [late.1, early] := rfl
  have steps := first.trans second
  rw [← both] at steps
  refine ⟨memoryless, item, base, _, _, both, first, second, ended, ?_, ?_⟩
  · rw [eq_reports_of_ended memoryless steps ended]
    decide +kernel
  · rw [((detect_interleaved _ .zero memoryless []).1 _ steps).2.2 _ ended]
    decide +kernel

end Registry

end ContractAbi
