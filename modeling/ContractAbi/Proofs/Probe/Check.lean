import ContractAbi.Proofs.Probe.Run
import ContractAbi.Proofs.Probe.Simulation

/-!
# What a check runs and reports

`IsCheck` says which probes a check of a target has to run, with what verdict it has to end and what
it has to report. `exists_isCheck_probe` is that law for the worlds that a check passes through, and
`probe_logged` for the log that the target itself keeps of its probes.
-/

namespace ContractAbi

/-- There is nothing to probe. -/
def Target.NoProbes {m : Type → Type} (t : Target m) : Prop := t.queries = [] ∧ t.sends = []

/-- What a check of a target runs and reports: `queries` and `sends` are the probes that ran. -/
structure IsCheck {m : Type → Type} (t : Target m) (queries sends : List ProbeRun)
    (report : Report) : Prop where
  interface : report.interface = t.interface
  address : report.address = t.address
  queries_run : UntilFailure (t.queries.map .query) queries
  /-- All send probes run if there is something to probe and all query probes passed. -/
  sends_run : ¬ t.NoProbes ∧ AllPassed (t.queries.map .query) queries →
    sends.map (·.call) = t.sends.map .send
  /-- No send probe runs otherwise. -/
  sends_idle : ¬(¬ t.NoProbes ∧ AllPassed (t.queries.map .query) queries) → sends = []
  inconclusive : report.verdict = .inconclusive ↔ t.NoProbes
  notImplemented : report.verdict = .notImplemented ↔ ∃ r ∈ queries, r.failure ≠ none
  implemented : report.verdict = .implemented ↔ ¬ t.NoProbes ∧ ∀ r ∈ queries, r.failure = none
  failure : ∀ text, report.failure = some text ↔ ∃ r ∈ queries, r.failure = some text
  queries_recorded : report.queries = queries.map (·.record)
  sends_recorded : report.sends = sends.map (·.record)

namespace IsCheck

variable {m : Type → Type} {t : Target m} {queries sends : List ProbeRun}

theorem of_noProbes (nothing : t.NoProbes) :
    IsCheck t [] [] ⟨t.interface, t.address, .inconclusive, [], [], none⟩ where
  interface := rfl
  address := rfl
  queries_run := by
    rw [nothing.1]
    exact .nil
  sends_run something := absurd nothing something.1
  sends_idle _ := rfl
  inconclusive := by simp [nothing]
  notImplemented := by simp
  implemented := by simp [nothing]
  failure := by simp
  queries_recorded := rfl
  sends_recorded := rfl

/-- A check ends with the query that fails, and sends nothing. -/
theorem of_failed (something : ¬ t.NoProbes) (upTo : UntilFailure (t.queries.map .query) queries)
    {r : ProbeRun} (ran : r ∈ queries) {text : String} (failed : r.failure = some text) :
    IsCheck t queries []
      ⟨t.interface, t.address, .notImplemented, queries.map (·.record), [], some text⟩ where
  interface := rfl
  address := rfl
  queries_run := upTo
  sends_run all := by
    have passed := all.2.2 r ran
    rw [failed] at passed
    cases passed
  sends_idle _ := rfl
  inconclusive := by simp [something]
  notImplemented := by simpa using ⟨r, ran, by simp [failed]⟩
  implemented := by
    constructor
    · intro same
      cases same
    · intro all
      have passed := all.2 r ran
      rw [failed] at passed
      cases passed
  failure other := by
    constructor
    · intro same
      cases same
      exact ⟨r, ran, failed⟩
    · rintro ⟨s, alsoRan, alsoFailed⟩
      have same : r = s := upTo.eq_of_failed ran alsoRan (by simp [failed]) (by simp [alsoFailed])
      subst same
      exact failed.symm.trans alsoFailed
  queries_recorded := rfl
  sends_recorded := rfl

/-- Where all queries pass, each message is sent, and the interface is implemented. -/
theorem of_passed (something : ¬ t.NoProbes) (upTo : UntilFailure (t.queries.map .query) queries)
    (passed : ∀ r ∈ queries, r.failure = none) (all : sends.map (·.call) = t.sends.map .send) :
    IsCheck t queries sends
      ⟨t.interface, t.address, .implemented, queries.map (·.record), sends.map (·.record),
        none⟩ where
  interface := rfl
  address := rfl
  queries_run := upTo
  sends_run _ := all
  sends_idle idle := absurd ⟨something, upTo.allPassed passed⟩ idle
  inconclusive := by simp [something]
  notImplemented := by simpa using passed
  implemented := by simpa [something] using passed
  failure text := by
    constructor
    · intro same
      cases same
    · rintro ⟨r, ran, failed⟩
      rw [passed r ran] at failed
      cases failed
  queries_recorded := rfl
  sends_recorded := rfl

section

variable {report : Report} (h : IsCheck t queries sends report)

include h

theorem exists_query_name {r : ProbeRun} (ran : r ∈ queries) :
    ∃ name ∈ t.queries, r.call = .query name := by
  obtain ⟨name, listed, same⟩ := List.mem_map.mp
    (h.queries_run.listed.subset (List.mem_map_of_mem ran))
  exact ⟨name, listed, same.symm⟩

theorem exists_send_name {r : ProbeRun} (ran : r ∈ sends) :
    ∃ name ∈ t.sends, r.call = .send name := by
  by_cases all : ¬ t.NoProbes ∧ AllPassed (t.queries.map .query) queries
  · have listed : r.call ∈ t.sends.map .send := h.sends_run all ▸ List.mem_map_of_mem ran
    obtain ⟨name, inSends, same⟩ := List.mem_map.mp listed
    exact ⟨name, inSends, same.symm⟩
  · rw [h.sends_idle all] at ran
    cases ran

theorem allPassed_of_implemented (verdict : report.verdict = .implemented) :
    AllPassed (t.queries.map .query) queries :=
  h.queries_run.allPassed (h.implemented.mp verdict).2

theorem sends_eq_nil_of_not_implemented (verdict : report.verdict ≠ .implemented) : sends = [] :=
  h.sends_idle fun all => verdict (h.implemented.mpr ⟨all.1, all.2.2⟩)

end

/-- Only the name, the address and the lists of a target count. -/
theorem congr {n : Type → Type} {u : Target n} {report : Report}
    (h : IsCheck t queries sends report) (interface : t.interface = u.interface)
    (address : t.address = u.address) (queryNames : t.queries = u.queries)
    (sendNames : t.sends = u.sends) : IsCheck u queries sends report := by
  have noProbes : t.NoProbes = u.NoProbes := by
    rw [Target.NoProbes, Target.NoProbes, queryNames, sendNames]
  constructor
  · exact h.interface.trans interface
  · exact h.address.trans address
  · exact queryNames ▸ h.queries_run
  · exact noProbes ▸ queryNames ▸ sendNames ▸ h.sends_run
  · exact noProbes ▸ queryNames ▸ h.sends_idle
  · exact noProbes ▸ h.inconclusive
  · exact h.notImplemented
  · exact noProbes ▸ h.implemented
  · exact h.failure
  · exact h.queries_recorded
  · exact h.sends_recorded

end IsCheck

namespace Target

variable {σ : Type}

theorem probe_apply (t : Target (StateM σ)) (world : σ) :
    probe t world =
      if t.queries.isEmpty && t.sends.isEmpty then
        (⟨t.interface, t.address, .inconclusive, [], [], none⟩, world)
      else
        match (recordUntilFailure t.runQuery t.queries world).1.findSome? (·.failure) with
        | some failure =>
          (⟨t.interface, t.address, .notImplemented,
              (recordUntilFailure t.runQuery t.queries world).1, [], some failure⟩,
            (recordUntilFailure t.runQuery t.queries world).2)
        | none =>
          (⟨t.interface, t.address, .implemented,
              (recordUntilFailure t.runQuery t.queries world).1,
              (t.sends.mapM (record t.runSend)
                (recordUntilFailure t.runQuery t.queries world).2).1, none⟩,
            (t.sends.mapM (record t.runSend)
              (recordUntilFailure t.runQuery t.queries world).2).2) := by
  unfold probe
  split
  · rfl
  · change (match (recordUntilFailure t.runQuery t.queries world).1.findSome? (·.failure) with
      | some _ => _ | none => _ : StateM σ Report) _ = _
    cases (recordUntilFailure t.runQuery t.queries world).1.findSome? (·.failure) <;> rfl

/-- The first failure of the records is that of the runs. -/
theorem findSome?_failure_record (runs : List ProbeRun) :
    (runs.map (·.record)).findSome? (·.failure) = runs.findSome? (·.failure) := by
  rw [List.findSome?_map]
  simp [Function.comp_def]

/-- A check of a target runs and reports what it has to, in every world. -/
theorem exists_isCheck_probe (t : Target (StateM σ)) (world : σ) :
    ∃ queries sends middle, t.Ran world queries middle ∧ t.Ran middle sends (probe t world).2 ∧
      IsCheck t queries sends (probe t world).1 := by
  rw [probe_apply]
  by_cases nothing : t.NoProbes
  · rw [if_pos (by simp [nothing.1, nothing.2])]
    exact ⟨[], [], world, .nil _, .nil _, .of_noProbes nothing⟩
  · rw [if_neg (by simpa [NoProbes] using nothing)]
    obtain ⟨queries, middle, recorded, ran, upTo⟩ :=
      exists_ran_recordUntilFailure t t.queries world
    simp only [recorded, findSome?_failure_record]
    cases found : queries.findSome? (·.failure) with
    | some text =>
      obtain ⟨r, inQueries, failed⟩ := List.exists_of_findSome?_eq_some found
      exact ⟨queries, [], middle, ran, .nil _, .of_failed nothing upTo inQueries failed⟩
    | none =>
      obtain ⟨sends, last, sent, sendsRan, all⟩ := exists_ran_mapM_record t t.sends middle
      simp only [sent]
      exact ⟨queries, sends, middle, ran, sendsRan,
        .of_passed nothing upTo (List.findSome?_eq_none_iff.mp found) all⟩

/-- What sends return does not change the verdict. -/
theorem verdict_probe_of_runSend (t : Target (StateM σ))
    (runSend : String → StateM σ (Except ProbeFailure Unit)) (world : σ) :
    (probe { t with runSend } world).1.verdict = (probe t world).1.verdict := by
  rw [probe_apply, probe_apply]
  dsimp only
  split
  · rfl
  · cases (recordUntilFailure t.runQuery t.queries world).1.findSome? (·.failure) <;> rfl

/-- A target behaves the same with a log and without. -/
def logSimulation (σ : Type) : Simulation (StateM (σ × List ProbeRun)) (StateM σ) where
  Rel x y := ∀ world log, (x (world, log)).1 = (y world).1 ∧ (x (world, log)).2.1 = (y world).2
  pure _ _ _ := ⟨rfl, rfl⟩
  bind := by
    intro α β x y f g related next world log
    obtain ⟨value, after⟩ := related world log
    change (f (x (world, log)).1 (x (world, log)).2).1 = (g (y world).1 (y world).2).1 ∧
      (f (x (world, log)).1 (x (world, log)).2).2.1 = (g (y world).1 (y world).2).2
    rw [← value, ← after]
    exact next _ _ _

theorem probe_logged_fst (t : Target (StateM σ)) (world : σ) (log : List ProbeRun) :
    (probe t.logged (world, log)).1 = (probe t world).1 ∧
      (probe t.logged (world, log)).2.1 = (probe t world).2 :=
  (logSimulation σ).probe rfl rfl rfl rfl (fun _ _ _ => ⟨rfl, rfl⟩) (fun _ _ _ => ⟨rfl, rfl⟩) world
    log

/-- Whatever the probes of a target give, the probes that a check runs, and the report that it gives
on them, are those that `IsCheck` asks for. What the send probes give has no part in the verdict. -/
theorem probe_logged (t : Target (StateM σ)) (world : σ) :
    (∃ queries sends,
        probe t.logged (world, []) = ((probe t world).1, (probe t world).2, queries ++ sends) ∧
          IsCheck t queries sends (probe t world).1) ∧
      ∀ runSend, (probe { t with runSend } world).1.verdict = (probe t world).1.verdict := by
  refine ⟨?_, fun runSend => verdict_probe_of_runSend t runSend world⟩
  obtain ⟨queries, sends, middle, queriesRan, sendsRan, check⟩ :=
    exists_isCheck_probe t.logged (world, [])
  obtain ⟨report, last⟩ := probe_logged_fst t world []
  have log := sendsRan.log
  rw [queriesRan.log, List.nil_append] at log
  refine ⟨queries, sends, ?_, ?_⟩
  · rw [← report, ← last, ← log]
    rfl
  · rw [← report]
    exact check.congr rfl rfl rfl rfl

end Target

end ContractAbi
