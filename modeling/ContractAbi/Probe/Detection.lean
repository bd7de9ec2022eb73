import ContractAbi.Probe.Registry
import ContractAbi.Probe.Report

/-!
# Detecting the interface of a contract

The interfaces of a registry are tried in its order, and the first that is implemented is the
answer. `detect` stops there; `detectAfterAll` checks all interfaces before it picks.
-/

namespace ContractAbi

/-- The interface that was found, with a contract to go on with. -/
structure Detection where
  report : Report
  contract : Contract

namespace Registry

/-- The contracts at an address as the interfaces see it, in order. -/
def contracts (r : Registry) (address : Address) : List Contract :=
  r.entries.map fun e => ⟨e.2, address⟩

/-- Checks an address against one interface. -/
def check (r : Registry) (address : Address) (name : String) : Session (Option Report) :=
  match r.contract? name address with
  | some c => some <$> probe c.target
  | none => return none

/-- Checks contracts up to the first that has its interface. -/
def detectAmong : List Contract → Session (Option Detection)
  | [] => return none
  | c :: cs => do
    let report ← probe c.target
    if report.isImplemented then return some ⟨report, c⟩ else detectAmong cs

/-- The first interface that is implemented; those behind it are not tried. -/
def detect (r : Registry) (address : Address) : Session (Option Detection) :=
  detectAmong (r.contracts address)

/-- Checks an address against all interfaces, in order. -/
def survey (r : Registry) (address : Address) : Session (List Report) :=
  (r.contracts address).mapM fun c => probe c.target

/-- The first contract that has its interface, given the reports on all of them. -/
def firstImplemented (contracts : List Contract) (reports : List Report) : Option Detection :=
  ((reports.zip contracts).find? (·.1.isImplemented)).map fun (report, c) => ⟨report, c⟩

/-- The first interface that is implemented, once all of them have been tried. -/
def detectAfterAll (r : Registry) (address : Address) : Session (Option Detection) := do
  return firstImplemented (r.contracts address) (← r.survey address)

end Registry

end ContractAbi
