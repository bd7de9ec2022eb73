import ContractAbi.Probe.Report

/-!
# Probes that ran

The world of a target is a state of any kind, so that what a probe gives may depend on all that ran
before it. `Target.Ran` says that probes ran one after another. The two phases of a check run probes
in this sense: queries up to the first failure, sends all of them.
-/

namespace ContractAbi

/-- A probe of a target. -/
inductive ProbeCall where
  | query (name : String)
  | send (name : String)
  deriving DecidableEq

/-- The name that the target lists the probe under. -/
def ProbeCall.name : ProbeCall → String
  | .query name | .send name => name

/-- A probe that ran and what came of it. -/
structure ProbeRun where
  call : ProbeCall
  result : Except ProbeFailure Unit

namespace ProbeRun

/-- What is reported for the probe, if it failed. -/
def failure (r : ProbeRun) : Option String :=
  match r.result with
  | .ok () => none
  | .error e => some e.message

/-- The record that belongs into a report. -/
def record (r : ProbeRun) : ProbeRecord := .ofResult r.call.name r.result

@[simp] theorem failure_record (r : ProbeRun) : r.record.failure = r.failure := by
  rcases r with ⟨call, e | ⟨⟨⟩⟩⟩ <;> rfl

end ProbeRun

/-- `runs` takes probes in their order up to and including the first that fails. -/
structure UntilFailure (probes : List ProbeCall) (runs : List ProbeRun) : Prop where
  listed : runs.map (·.call) <+: probes
  passed : ∀ r ∈ runs.dropLast, r.failure = none
  complete : runs.map (·.call) = probes ∨ ∃ r, runs.getLast? = some r ∧ r.failure ≠ none

/-- All of the probes ran, and none failed. -/
def AllPassed (probes : List ProbeCall) (runs : List ProbeRun) : Prop :=
  runs.map (·.call) = probes ∧ ∀ r ∈ runs, r.failure = none

namespace UntilFailure

theorem nil : UntilFailure [] [] := ⟨List.nil_prefix, by simp, Or.inl rfl⟩

theorem failed (call : ProbeCall) (probes : List ProbeCall) (e : ProbeFailure) :
    UntilFailure (call :: probes) [⟨call, .error e⟩] where
  listed := ⟨probes, rfl⟩
  passed := by simp
  complete := Or.inr ⟨_, rfl, by simp [ProbeRun.failure]⟩

theorem cons {probes : List ProbeCall} {runs : List ProbeRun} (h : UntilFailure probes runs)
    (call : ProbeCall) : UntilFailure (call :: probes) (⟨call, .ok ()⟩ :: runs) where
  listed := List.cons_prefix_cons.mpr ⟨rfl, h.listed⟩
  passed := by
    intro run member
    cases runs with
    | nil => cases member
    | cons second runs =>
      rcases List.mem_cons.mp member with rfl | later
      · rfl
      · exact h.passed run later
  complete := by
    rcases h.complete with all | ⟨last, isLast, failure⟩
    · exact Or.inl (by rw [List.map_cons, all])
    · refine Or.inr ⟨last, ?_, failure⟩
      rw [List.getLast?_cons, isLast]
      rfl

/-- Only the last run can have failed. -/
theorem eq_of_failed {probes : List ProbeCall} {runs : List ProbeRun} (h : UntilFailure probes runs)
    {r s : ProbeRun} (inRuns : r ∈ runs) (alsoIn : s ∈ runs) (rFailed : r.failure ≠ none)
    (sFailed : s.failure ≠ none) : r = s := by
  rcases List.eq_nil_or_concat runs with rfl | ⟨front, last, rfl⟩
  · cases inRuns
  · have isLast : ∀ run ∈ front ++ [last], run.failure ≠ none → run = last := by
      intro run member failed
      rcases List.mem_append.mp member with early | late
      · exact absurd (h.passed run (by simpa using early)) failed
      · exact List.mem_singleton.mp late
    rw [isLast r (by simpa using inRuns) rFailed, isLast s (by simpa using alsoIn) sFailed]

/-- Without a failure all of the probes ran. -/
theorem allPassed {probes : List ProbeCall} {runs : List ProbeRun} (h : UntilFailure probes runs)
    (noFailure : ∀ r ∈ runs, r.failure = none) : AllPassed probes runs := by
  refine ⟨?_, noFailure⟩
  rcases h.complete with all | ⟨last, isLast, failure⟩
  · exact all
  · exact absurd (noFailure last (List.mem_of_getLast? isLast)) failure

end UntilFailure

namespace Target

variable {σ : Type}

/-- What a probe gives in a world, and the world after it. -/
def answer (t : Target (StateM σ)) : ProbeCall → σ → Except ProbeFailure Unit × σ
  | .query name => t.runQuery name
  | .send name => t.runSend name

/-- The probes ran one after another and led from one world to another. -/
inductive Ran (t : Target (StateM σ)) : σ → List ProbeRun → σ → Prop
  | nil (world : σ) : Ran t world [] world
  | cons {world next last : σ} {call : ProbeCall} {result : Except ProbeFailure Unit}
      {runs : List ProbeRun} (head : t.answer call world = (result, next))
      (tail : Ran t next runs last) : Ran t world (⟨call, result⟩ :: runs) last

/-- The target with a log, in which every probe is entered that it runs. -/
def logged (t : Target (StateM σ)) : Target (StateM (σ × List ProbeRun)) where
  interface := t.interface
  address := t.address
  queries := t.queries
  sends := t.sends
  runQuery name := fun (world, log) =>
    let (result, next) := t.runQuery name world
    (result, next, log ++ [⟨.query name, result⟩])
  runSend name := fun (world, log) =>
    let (result, next) := t.runSend name world
    (result, next, log ++ [⟨.send name, result⟩])

/-- A logged target answers as the target does. -/
theorem answer_logged (t : Target (StateM σ)) (call : ProbeCall) (world : σ)
    (log : List ProbeRun) :
    t.logged.answer call (world, log) = ((t.answer call world).1, (t.answer call world).2,
      log ++ [⟨call, (t.answer call world).1⟩]) := by
  cases call <;> rfl

/-- The log holds exactly the probes that ran. -/
theorem Ran.log {t : Target (StateM σ)} {before after : σ × List ProbeRun}
    {runs : List ProbeRun} (ran : t.logged.Ran before runs after) :
    after.2 = before.2 ++ runs := by
  induction ran with
  | nil => exact (List.append_nil _).symm
  | cons head tail ih =>
    rw [answer_logged] at head
    cases head
    rw [ih, List.append_assoc, List.singleton_append]

theorem Ran.eq_of_nil {t : Target (StateM σ)} {before after : σ} (ran : t.Ran before [] after) :
    after = before := by
  cases ran
  rfl

/-- One probe, and the others where it passes. -/
theorem recordUntilFailure_cons_apply (run : String → StateM σ (Except ProbeFailure Unit))
    (name : String) (names : List String) (world : σ) :
    recordUntilFailure run (name :: names) world =
      if (ProbeRecord.ofResult name (run name world).1).failure.isSome then
        ([.ofResult name (run name world).1], (run name world).2)
      else
        (.ofResult name (run name world).1 :: (recordUntilFailure run names (run name world).2).1,
          (recordUntilFailure run names (run name world).2).2) := by
  change (if (ProbeRecord.ofResult name (run name world).1).failure.isSome then _ else _ :
    StateM σ (List ProbeRecord)) (run name world).2 = _
  split <;> rfl

/-- The query phase runs probes up to the first failure and records what ran. -/
theorem exists_ran_recordUntilFailure (t : Target (StateM σ)) (names : List String) (world : σ) :
    ∃ runs next, recordUntilFailure t.runQuery names world = (runs.map (·.record), next) ∧
      t.Ran world runs next ∧ UntilFailure (names.map .query) runs := by
  induction names generalizing world with
  | nil => exact ⟨[], world, rfl, .nil world, .nil⟩
  | cons name names ih =>
    rw [recordUntilFailure_cons_apply]
    cases step : t.runQuery name world with
    | mk result next =>
      have head : t.answer (.query name) world = (result, next) := step
      cases result with
      | error e =>
        exact ⟨[⟨.query name, .error e⟩], next, rfl, .cons head (.nil next), .failed _ _ e⟩
      | ok u =>
        obtain ⟨runs, last, same, ran, upTo⟩ := ih next
        refine ⟨⟨.query name, .ok u⟩ :: runs, last, ?_, .cons head ran, upTo.cons _⟩
        rw [same]
        rfl

/-- The send phase runs and records all probes, whatever they give. -/
theorem exists_ran_mapM_record (t : Target (StateM σ)) (names : List String) (world : σ) :
    ∃ runs next, names.mapM (record t.runSend) world = (runs.map (·.record), next) ∧
      t.Ran world runs next ∧ runs.map (·.call) = names.map .send := by
  induction names generalizing world with
  | nil => exact ⟨[], world, rfl, .nil world, rfl⟩
  | cons name names ih =>
    obtain ⟨runs, last, same, ran, calls⟩ := ih (t.runSend name world).2
    refine ⟨⟨.send name, (t.runSend name world).1⟩ :: runs, last, ?_, .cons rfl ran, ?_⟩
    · rw [List.mapM_cons]
      change (_ :: (names.mapM (record t.runSend) (t.runSend name world).2).1,
        (names.mapM (record t.runSend) (t.runSend name world).2).2) = _
      rw [same]
      rfl
    · rw [List.map_cons, List.map_cons, calls]

end Target

end ContractAbi
