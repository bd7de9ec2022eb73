import ContractAbi.Contract.Basic

/-!
# The calls of a session

`AllCalls P` says that every call that a session can make satisfies `P`, whatever the replies are.
It passes through sequencing, and a run of such a session adds only calls of that kind to the
history. A query of a contract only calls get-methods, a send only sends messages.
-/

namespace ContractAbi

/-- Whether a call sends a message. -/
def Call.isSend : Call → Bool
  | .query .. => false
  | .send .. => true

namespace Session

variable {α β : Type} {P : Call → Prop}

/-- Every call that the session can make satisfies `P`. -/
def AllCalls (P : Call → Prop) : Session α → Prop
  | .done _ => True
  | .call c next => P c ∧ ∀ reply, (next reply).AllCalls P

theorem allCalls_pure (a : α) : (pure a : Session α).AllCalls P := trivial

/-- What holds of all calls of the parts holds of all calls. -/
theorem AllCalls.bind {s : Session α} {f : α → Session β} (h : s.AllCalls P)
    (next : ∀ a, (f a).AllCalls P) : (s >>= f).AllCalls P := by
  induction s with
  | done a => exact next a
  | call c k ih => exact ⟨h.1, fun reply => ih reply (h.2 reply)⟩

theorem AllCalls.map {s : Session α} (h : s.AllCalls P) (f : α → β) : (f <$> s).AllCalls P := by
  rw [← bind_pure_comp]
  exact h.bind fun a => allCalls_pure (f a)

/-- A run adds only calls of the kind to the history. -/
theorem AllCalls.exists_run {s : Session α} (h : s.AllCalls P) (R : Runtime)
    (history : List Call) :
    ∃ calls : List Call, (s.run R history).2 = calls.reverse ++ history ∧ ∀ c ∈ calls, P c := by
  induction s generalizing history with
  | done a => exact ⟨[], rfl, by simp⟩
  | call c next ih =>
    obtain ⟨calls, after, kind⟩ := ih (R.reply history c) (h.2 _) (c :: history)
    refine ⟨c :: calls, ?_, ?_⟩
    · rw [run, after, List.reverse_cons, List.append_assoc, List.singleton_append]
    · intro call member
      rcases List.mem_cons.mp member with rfl | later
      · exact h.1
      · exact kind call later

theorem run_map (R : Runtime) (history : List Call) (s : Session α) (f : α → β) :
    (f <$> s).run R history = (f (s.run R history).1, (s.run R history).2) := by
  rw [← bind_pure_comp]
  exact run_bind R history s _

end Session

namespace Access

variable {α β : Type} {P : Call → Prop}

theorem allCalls_bind {x : Access α} {f : α → Access β} (h : x.run.AllCalls P)
    (next : ∀ a, (f a).run.AllCalls P) : (x >>= f).run.AllCalls P := by
  rw [ExceptT.run_bind]
  refine h.bind fun result => ?_
  cases result with
  | ok a => exact next a
  | error e => exact Session.allCalls_pure _

theorem allCalls_discard {x : Access α} (h : x.run.AllCalls P) :
    (discard x).run.AllCalls P := by
  change ((fun _ => ()) <$> x).run.AllCalls P
  rw [ExceptT.run_map]
  exact h.map _

/-- What is discarded is carried out all the same. -/
theorem run_discard (x : Access α) (R : Runtime) (history : List Call) :
    (discard x).run.run R history =
      ((x.run.run R history).1.map fun _ => (), (x.run.run R history).2) := by
  change ((fun _ => ()) <$> x).run.run R history = _
  rw [ExceptT.run_map]
  exact Session.run_map R history x.run _

theorem allCalls_ofExcept (x : Except BindingError α) : (liftM x : Access α).run.AllCalls P :=
  trivial

end Access

namespace Contract

variable {P : Call → Prop}

theorem allCalls_invoke (c : Contract) (method : String) (args : List WireValue) :
    (c.invoke method args).run.AllCalls fun call => call.isSend = false :=
  ⟨rfl, fun _ => trivial⟩

theorem allCalls_dispatch (c : Contract) (message : String) (payload : Cell) :
    (c.dispatch message payload).run.AllCalls fun call => call.isSend = true :=
  ⟨rfl, fun _ => trivial⟩

/-- The probe of a query sends nothing. -/
theorem allCalls_probeQuery (c : Contract) (method : String) :
    (c.probeQuery method).run.AllCalls fun call => call.isSend = false := by
  refine Access.allCalls_bind (Access.allCalls_ofExcept _) fun q => ?_
  refine Access.allCalls_discard ?_
  refine Access.allCalls_bind (Access.allCalls_ofExcept _) fun _ => ?_
  refine Access.allCalls_bind (Access.allCalls_ofExcept _) fun _ => ?_
  exact Access.allCalls_bind (c.allCalls_invoke _ _) fun _ => Access.allCalls_ofExcept _

/-- The probe of a message asks nothing. -/
theorem allCalls_probeSend (c : Contract) (message : String) :
    (c.probeSend message).run.AllCalls fun call => call.isSend = true := by
  refine Access.allCalls_bind (Access.allCalls_ofExcept _) fun s => ?_
  refine Access.allCalls_discard ?_
  refine Access.allCalls_bind (Access.allCalls_ofExcept _) fun _ => ?_
  exact c.allCalls_dispatch _ _

end Contract

end ContractAbi
