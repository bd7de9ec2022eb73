import ContractAbi.Proofs.Probe.Detection
import ContractAbi.Proofs.Session.Interleaving

/-!
# Checks that nothing before them changes

With a memoryless runtime a target has one report, whenever it is checked: `Target.report`. Its
verdict can be read off the query probes one by one (`Target.verdict_report_eq_implemented_iff`),
and a detection and a survey are then lists of such reports.
-/

namespace ContractAbi

namespace Target

variable {t : Target Session} {R : Runtime}

/-- The report on a target if nothing is called before. -/
def report (t : Target Session) (R : Runtime) : Report := (probe t).value R

theorem exists_isCheck_report (t : Target Session) (R : Runtime) : ∃ queries sends middle,
    (t.onRuntime R).Ran [] queries middle ∧ IsCheck (t.onRuntime R) queries sends (t.report R) := by
  obtain ⟨queries, sends, middle, ran, -, check⟩ := exists_isCheck_probe (t.onRuntime R) []
  rw [← run_probe] at check
  exact ⟨queries, sends, middle, ran, check⟩

theorem interface_report (t : Target Session) (R : Runtime) :
    (t.report R).interface = t.interface := by
  obtain ⟨queries, sends, middle, -, check⟩ := exists_isCheck_report t R
  exact check.interface

/-- With a memoryless runtime a probe gives what it gives on its own. -/
theorem Ran.result_eq (memoryless : R.Memoryless) {history after : List Call}
    {runs : List ProbeRun} (ran : (t.onRuntime R).Ran history runs after) :
    ∀ r ∈ runs, r.result = (t.session r.call).value R := by
  induction ran with
  | nil =>
    intro r member
    cases member
  | cons head tail ih =>
    intro r member
    rcases List.mem_cons.mp member with rfl | later
    · rw [answer_onRuntime, Session.run_memoryless memoryless] at head
      exact (congrArg Prod.fst head).symm
    · exact ih r later

/-- Only contracts without probes are inconclusive. -/
theorem verdict_report_eq_inconclusive_iff (t : Target Session) (R : Runtime) :
    (t.report R).verdict = .inconclusive ↔ t.NoProbes := by
  obtain ⟨queries, sends, middle, -, check⟩ := exists_isCheck_report t R
  exact check.inconclusive

/-- A target implements its interface if there is something to probe and each of its query probes
passes on its own. -/
theorem verdict_report_eq_implemented_iff (memoryless : R.Memoryless) (t : Target Session) :
    (t.report R).verdict = .implemented ↔
      ¬ t.NoProbes ∧ ∀ name ∈ t.queries, (t.runQuery name).value R = .ok () := by
  obtain ⟨queries, sends, middle, ran, check⟩ := exists_isCheck_report t R
  have results := ran.result_eq memoryless
  have verdict : (t.report R).verdict = .implemented ↔
      ¬ t.NoProbes ∧ ∀ r ∈ queries, r.failure = none := check.implemented
  have failure : ∀ r : ProbeRun, r.failure = none ↔ r.result = .ok () := by
    rintro ⟨call, e | ⟨⟨⟩⟩⟩ <;> simp [ProbeRun.failure]
  rw [verdict]
  constructor
  · rintro ⟨something, passed⟩
    refine ⟨something, ?_⟩
    intro name listed
    -- Without a failure every listed probe ran.
    have all := (check.queries_run.allPassed passed).1
    have called : ProbeCall.query name ∈ queries.map (·.call) := by
      rw [all]
      exact List.mem_map_of_mem listed
    obtain ⟨r, inQueries, same⟩ := List.mem_map.mp called
    have result := results r inQueries
    rw [same, (failure r).mp (passed r inQueries)] at result
    exact result.symm
  · rintro ⟨something, passed⟩
    refine ⟨something, ?_⟩
    intro r inQueries
    obtain ⟨name, listed, same⟩ := check.exists_query_name inQueries
    rw [failure, results r inQueries, same]
    exact passed name listed

end Target

namespace Registry

variable {R : Runtime}

/-- The reports on contracts, each as if it were the only one. -/
def reports (cs : List Contract) (R : Runtime) : List Report := cs.map (·.target.report R)

theorem firstImplemented_cons (c : Contract) (cs : List Contract) (R : Runtime) :
    firstImplemented (c :: cs) (reports (c :: cs) R) =
      if (c.target.report R).isImplemented then some ⟨c.target.report R, c⟩
      else firstImplemented cs (reports cs R) := by
  cases implemented : (c.target.report R).isImplemented <;>
    simp [firstImplemented, reports, implemented]

/-- What is found is the first of the contracts that has its interface. -/
theorem exists_split_of_firstImplemented {cs : List Contract} {d : Detection}
    (found : firstImplemented cs (reports cs R) = some d) :
    d.report = d.contract.target.report R ∧ ∃ front back, cs = front ++ d.contract :: back ∧
      ∀ c ∈ front, (c.target.report R).isImplemented = false := by
  induction cs with
  | nil => cases found
  | cons c cs ih =>
    rw [firstImplemented_cons] at found
    cases implemented : (c.target.report R).isImplemented with
    | true =>
      rw [implemented, if_pos rfl] at found
      cases found
      exact ⟨rfl, [], cs, rfl, List.forall_mem_nil _⟩
    | false =>
      rw [implemented, if_neg Bool.false_ne_true] at found
      obtain ⟨report, front, back, rfl, others⟩ := ih found
      exact ⟨report, c :: front, back, rfl, List.forall_mem_cons.mpr ⟨implemented, others⟩⟩

theorem value_detectAmong (memoryless : R.Memoryless) (cs : List Contract) :
    (detectAmong cs).value R = firstImplemented cs (reports cs R) := by
  induction cs with
  | nil => rfl
  | cons c cs ih =>
    rw [detectAmong, Session.value_bind memoryless, firstImplemented_cons, ← ih]
    change (if (c.target.report R).isImplemented then _ else _ : Session (Option Detection)).value R
      = _
    split <;> rfl

/-- Detection takes the first contract whose report says implemented. -/
theorem run_detect (memoryless : R.Memoryless) (r : Registry) (address : Address)
    (history : List Call) : ((r.detect address).run R history).1 =
      firstImplemented (r.contracts address) (reports (r.contracts address) R) := by
  rw [Session.run_memoryless memoryless]
  exact value_detectAmong memoryless _

theorem report_firstImplemented (cs : List Contract) (R : Runtime) :
    (firstImplemented cs (reports cs R)).map (·.report) =
      (reports cs R).find? (·.isImplemented) := by
  induction cs with
  | nil => rfl
  | cons c cs ih =>
    rw [firstImplemented_cons,
      show reports (c :: cs) R = c.target.report R :: reports cs R from rfl]
    cases implemented : (c.target.report R).isImplemented with
    | true => simp [implemented]
    | false =>
      rw [List.find?_cons_of_neg (by simp [implemented])]
      exact ih

end Registry

end ContractAbi
