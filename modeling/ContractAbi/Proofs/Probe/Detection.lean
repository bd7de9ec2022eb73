import ContractAbi.Probe.Detection
import ContractAbi.Proofs.Probe.Check
import ContractAbi.Proofs.Session.Calls

/-!
# What a detection calls

A detection is a row of checks, each of which begins where the one before it left off. A `Check`
holds what one of them ran and called: the calls of its query probes first, those of its send probes
behind them. `detect_run` says which checks there are, what they find, and that a message is only
sent for the interface that is found.
-/

namespace ContractAbi

namespace Target

/-- A target of sessions as one whose world is the history of a runtime. -/
def onRuntime (t : Target Session) (R : Runtime) : Target (StateM (List Call)) where
  interface := t.interface
  address := t.address
  queries := t.queries
  sends := t.sends
  runQuery name := fun history => (t.runQuery name).run R history
  runSend name := fun history => (t.runSend name).run R history

/-- The session of a probe. -/
def session (t : Target Session) : ProbeCall → Session (Except ProbeFailure Unit)
  | .query name => t.runQuery name
  | .send name => t.runSend name

theorem answer_onRuntime (t : Target Session) (R : Runtime) (call : ProbeCall)
    (history : List Call) :
    (t.onRuntime R).answer call history = (t.session call).run R history := by
  cases call <;> rfl

/-- A session does on a runtime what its run does. -/
def runSimulation (R : Runtime) : Simulation Session (StateM (List Call)) where
  Rel s x := ∀ history, s.run R history = x history
  pure _ _ := rfl
  bind := by
    intro α β s x f g related next history
    change (s.bind f).run R history = g (x history).1 (x history).2
    rw [Session.run_bind, related]
    exact next _ _

/-- A probe that calls a runtime is a probe whose state is the history. -/
theorem run_probe (t : Target Session) (R : Runtime) (history : List Call) :
    (probe t).run R history = probe (t.onRuntime R) history :=
  (runSimulation R).probe rfl rfl rfl rfl (fun _ _ => rfl) (fun _ _ => rfl) history

/-- Probes whose sessions only make calls of one kind add only such calls to the history. -/
theorem Ran.exists_calls {t : Target Session} {R : Runtime} {P : Call → Prop}
    {history after : List Call} {runs : List ProbeRun}
    (ran : (t.onRuntime R).Ran history runs after)
    (kind : ∀ r ∈ runs, (t.session r.call).AllCalls P) :
    ∃ calls : List Call, after = calls.reverse ++ history ∧ ∀ c ∈ calls, P c := by
  induction ran with
  | nil => exact ⟨[], rfl, by simp⟩
  | @cons world next last call result runs head tail ih =>
    rw [answer_onRuntime] at head
    obtain ⟨first, moved, firstKind⟩ := (kind _ List.mem_cons_self).exists_run R world
    obtain ⟨more, ended, moreKind⟩ := ih fun r member => kind r (List.mem_cons_of_mem _ member)
    refine ⟨first ++ more, ?_, ?_⟩
    · rw [head] at moved
      rw [ended, show next = _ from moved, List.reverse_append, List.append_assoc]
    · intro c member
      rcases List.mem_append.mp member with early | late
      · exact firstKind c early
      · exact moreKind c late

end Target

theorem Contract.allCalls_query (c : Contract) (name : String) :
    (c.target.session (.query name)).AllCalls fun call => call.isSend = false :=
  (c.allCalls_probeQuery name).map _

theorem Contract.allCalls_send (c : Contract) (name : String) :
    (c.target.session (.send name)).AllCalls fun call => call.isSend = true :=
  (c.allCalls_probeSend name).map _

/-- One check of a detection. -/
structure Check where
  contract : Contract
  report : Report
  /-- The query probes that ran. -/
  queries : List ProbeRun
  /-- The send probes that ran. -/
  sends : List ProbeRun
  /-- The calls of the query probes, the first one first. -/
  asked : List Call
  /-- The calls of the send probes, the first one first. -/
  sent : List Call

namespace Check

/-- All calls of the check, the first one first. -/
def calls (k : Check) : List Call := k.asked ++ k.sent

/-- The check is one that took place after the calls in `history`. -/
structure Happened (R : Runtime) (history : List Call) (k : Check) : Prop where
  run : (probe k.contract.target).run R history = (k.report, k.calls.reverse ++ history)
  check : IsCheck k.contract.target k.queries k.sends k.report
  queries_ran : (k.contract.target.onRuntime R).Ran history k.queries (k.asked.reverse ++ history)
  sends_ran : (k.contract.target.onRuntime R).Ran (k.asked.reverse ++ history) k.sends
    (k.calls.reverse ++ history)
  asked_queries : ∀ call ∈ k.asked, call.isSend = false
  sent_messages : ∀ call ∈ k.sent, call.isSend = true

theorem exists_happened (R : Runtime) (history : List Call) (c : Contract) :
    ∃ k : Check, k.contract = c ∧ k.Happened R history := by
  obtain ⟨queries, sends, middle, queriesRan, sendsRan, check⟩ :=
    Target.exists_isCheck_probe (c.target.onRuntime R) history
  have areQueries : ∀ r ∈ queries,
      (c.target.session r.call).AllCalls fun call => call.isSend = false := by
    intro r ran
    obtain ⟨name, _, same⟩ := check.exists_query_name ran
    rw [same]
    exact c.allCalls_query name
  have areSends : ∀ r ∈ sends,
      (c.target.session r.call).AllCalls fun call => call.isSend = true := by
    intro r ran
    obtain ⟨name, _, same⟩ := check.exists_send_name ran
    rw [same]
    exact c.allCalls_send name
  -- The calls of a check are those of its queries, then those of its sends.
  obtain ⟨asked, rfl, askedQueries⟩ := queriesRan.exists_calls areQueries
  obtain ⟨sent, ended, sentMessages⟩ := sendsRan.exists_calls areSends
  have after : (probe (c.target.onRuntime R) history).2 = (asked ++ sent).reverse ++ history := by
    rw [ended, List.reverse_append, List.append_assoc]
  rw [after] at sendsRan
  refine ⟨⟨c, (probe (c.target.onRuntime R) history).1, queries, sends, asked, sent⟩, rfl,
    ?_, check.congr rfl rfl rfl rfl, queriesRan, sendsRan, askedQueries, sentMessages⟩
  rw [Target.run_probe]
  exact Prod.ext rfl after

/-- Without an implemented interface no message is sent. -/
theorem Happened.isSend_calls {R : Runtime} {history : List Call} {k : Check}
    (h : k.Happened R history) (other : k.report.isImplemented = false) :
    ∀ call ∈ k.calls, call.isSend = false := by
  have idle : k.sends = [] := h.check.sends_eq_nil_of_not_implemented fun verdict => by
    simp [Report.isImplemented, verdict] at other
  have ran := h.sends_ran
  rw [idle] at ran
  have same := congrArg List.length ran.eq_of_nil
  rw [calls, List.reverse_append, List.append_assoc, List.length_append] at same
  have nothing : k.sent.reverse.length = 0 := Nat.add_eq_right.mp same
  have silent : k.sent = [] := by simpa using nothing
  rw [calls, silent, List.append_nil]
  exact h.asked_queries

theorem Happened.isImplemented_of_isSend {R : Runtime} {history : List Call} {k : Check}
    (h : k.Happened R history) {call : Call} (called : call ∈ k.calls)
    (isSend : call.isSend = true) : k.report.isImplemented = true := by
  cases verdict : k.report.isImplemented with
  | true => rfl
  | false =>
    rw [h.isSend_calls verdict call called] at isSend
    cases isSend

theorem Happened.allPassed {R : Runtime} {history : List Call} {k : Check}
    (h : k.Happened R history) (implemented : k.report.isImplemented = true) :
    AllPassed (k.contract.target.queries.map .query) k.queries :=
  h.check.allPassed_of_implemented (by simpa [Report.isImplemented] using implemented)

end Check

/-- The checks took place one after another, the first one after the calls in `history`. -/
def InTurn (R : Runtime) : List Call → List Check → Prop
  | _, [] => True
  | history, k :: ks => k.Happened R history ∧ InTurn R (k.calls.reverse ++ history) ks

theorem InTurn.exists_happened {R : Runtime} {history : List Call} {checks : List Check}
    (inTurn : InTurn R history checks) {k : Check} (member : k ∈ checks) :
    ∃ before, k.Happened R before := by
  induction checks generalizing history with
  | nil => cases member
  | cons first rest ih =>
    rcases List.mem_cons.mp member with rfl | later
    · exact ⟨history, inTurn.1⟩
    · exact ih inTurn.2 later

/-- What the checks of a detection among contracts come to. -/
structure Detects (contracts : List Contract) (checks : List Check) (found : Option Detection) :
    Prop where
  /-- The contracts are checked in their order, none is left out in between. -/
  in_order : checks.map (·.contract) <+: contracts
  /-- The check of what is found is the last one, and the first with its interface implemented. -/
  found_last : ∀ d, found = some d → ∃ earlier last, checks = earlier ++ [last] ∧
    d = ⟨last.report, last.contract⟩ ∧ last.report.isImplemented = true ∧
      ∀ k ∈ earlier, k.report.isImplemented = false
  /-- If nothing is found, all contracts were checked in vain. -/
  none_all : found = none → checks.map (·.contract) = contracts ∧
    ∀ k ∈ checks, k.report.isImplemented = false

namespace Detects

theorem nil : Detects [] [] none := ⟨List.nil_prefix, nofun, fun _ => ⟨rfl, by simp⟩⟩

theorem found (cs : List Contract) {k : Check} (implemented : k.report.isImplemented = true) :
    Detects (k.contract :: cs) [k] (some ⟨k.report, k.contract⟩) where
  in_order := ⟨cs, rfl⟩
  found_last d same := ⟨[], k, rfl, (Option.some.inj same).symm, implemented, by simp⟩
  none_all := nofun

theorem cons {cs : List Contract} {checks : List Check} {d : Option Detection}
    (h : Detects cs checks d) {k : Check} (other : k.report.isImplemented = false) :
    Detects (k.contract :: cs) (k :: checks) d where
  in_order := List.cons_prefix_cons.mpr ⟨rfl, h.in_order⟩
  found_last e same := by
    obtain ⟨earlier, last, rfl, isLast, implemented, others⟩ := h.found_last e same
    refine ⟨k :: earlier, last, rfl, isLast, implemented, ?_⟩
    intro j member
    rcases List.mem_cons.mp member with rfl | early
    · exact other
    · exact others j early
  none_all same := by
    obtain ⟨all, others⟩ := h.none_all same
    refine ⟨by rw [List.map_cons, all], ?_⟩
    intro j member
    rcases List.mem_cons.mp member with rfl | later
    · exact other
    · exact others j later

/-- A check that finds its interface implemented is the last one, and gives the answer. -/
theorem eq_last {cs : List Contract} {checks : List Check} {found : Option Detection}
    (h : Detects cs checks found) {k : Check} (member : k ∈ checks)
    (implemented : k.report.isImplemented = true) :
    (∃ earlier, checks = earlier ++ [k]) ∧ found = some ⟨k.report, k.contract⟩ := by
  cases found with
  | none =>
    have vain := (h.none_all rfl).2 k member
    rw [implemented] at vain
    cases vain
  | some d =>
    obtain ⟨earlier, last, rfl, rfl, _, others⟩ := h.found_last d rfl
    rcases List.mem_append.mp member with early | late
    · have vain := others k early
      rw [implemented] at vain
      cases vain
    · cases List.mem_singleton.mp late
      exact ⟨⟨earlier, rfl⟩, rfl⟩

end Detects

namespace Registry

/-- A detection is a row of checks, one after the other, up to the first one that finds an
interface. -/
theorem exists_inTurn_detectAmong (R : Runtime) (cs : List Contract) (history : List Call) :
    ∃ checks, InTurn R history checks ∧
      ((detectAmong cs).run R history).2 = (checks.flatMap (·.calls)).reverse ++ history ∧
      Detects cs checks ((detectAmong cs).run R history).1 := by
  induction cs generalizing history with
  | nil => exact ⟨[], trivial, rfl, .nil⟩
  | cons c cs ih =>
    obtain ⟨k, rfl, happened⟩ := Check.exists_happened R history c
    have step : (detectAmong (k.contract :: cs)).run R history =
        (if k.report.isImplemented then pure (some ⟨k.report, k.contract⟩) else
          detectAmong cs : Session (Option Detection)).run R (k.calls.reverse ++ history) := by
      rw [detectAmong]
      exact (Session.run_bind R history _ _).trans (by rw [happened.run])
    rw [step]
    cases implemented : k.report.isImplemented with
    | true => exact ⟨[k], ⟨happened, trivial⟩, by simp [Session.run, pure], .found cs implemented⟩
    | false =>
      obtain ⟨checks, inTurn, calls, detects⟩ := ih (k.calls.reverse ++ history)
      refine ⟨k :: checks, ⟨happened, inTurn⟩, ?_, detects.cons implemented⟩
      change ((detectAmong cs).run R (k.calls.reverse ++ history)).2 = _
      rw [calls, List.flatMap_cons, List.reverse_append, List.append_assoc]

/-- A detection is a row of checks in the order of the registry, which ends with the first
implemented interface. Nothing is called but in these checks. A message is only sent by the check of
the interface that is found, after all query probes of that interface passed, and none is sent if
nothing is found. -/
theorem detect_run (r : Registry) (address : Address) (R : Runtime) (history : List Call) :
    ∃ checks, InTurn R history checks ∧
      ((r.detect address).run R history).2 = (checks.flatMap (·.calls)).reverse ++ history ∧
      Detects (r.contracts address) checks ((r.detect address).run R history).1 ∧
      (∀ k ∈ checks, (∃ call ∈ k.calls, call.isSend = true) →
        (∃ earlier, checks = earlier ++ [k]) ∧
          ((r.detect address).run R history).1 = some ⟨k.report, k.contract⟩ ∧
          AllPassed (k.contract.target.queries.map .query) k.queries) ∧
      (((r.detect address).run R history).1 = none →
        ∀ call ∈ checks.flatMap (·.calls), call.isSend = false) := by
  obtain ⟨checks, inTurn, calls, detects⟩ :=
    exists_inTurn_detectAmong R (r.contracts address) history
  refine ⟨checks, inTurn, calls, detects, ?_, ?_⟩
  · rintro k member ⟨call, called, isSend⟩
    obtain ⟨before, happened⟩ := inTurn.exists_happened member
    have implemented := happened.isImplemented_of_isSend called isSend
    obtain ⟨isLast, answer⟩ := detects.eq_last member implemented
    exact ⟨isLast, answer, happened.allPassed implemented⟩
  · intro nothing call member
    obtain ⟨k, inChecks, called⟩ := List.mem_flatMap.mp member
    obtain ⟨before, happened⟩ := inTurn.exists_happened inChecks
    exact happened.isSend_calls ((detects.none_all nothing).2 k inChecks) call called

end Registry

end ContractAbi
