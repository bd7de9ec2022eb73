import ContractAbi.Probe.Report

/-!
# Checks in related worlds

`probe` knows nothing of the monad that a target runs in. Two targets whose probes are related step
by step therefore give related checks, for every relation that values and sequencing respect
(`Simulation.probe`). A check by sessions is in this way the same check against the history of a
runtime, and a check that keeps a log is the same check without one.
-/

namespace ContractAbi

/-- A relation between computations in two monads that values and sequencing respect. -/
structure Simulation (m n : Type → Type) [Monad m] [Monad n] where
  Rel : {α : Type} → m α → n α → Prop
  pure : ∀ {α : Type} (a : α), Rel (pure a) (pure a)
  bind : ∀ {α β : Type} {x : m α} {y : n α} {f : α → m β} {g : α → n β},
    Rel x y → (∀ a, Rel (f a) (g a)) → Rel (x >>= f) (y >>= g)

namespace Simulation

variable {m n : Type → Type} [Monad m] [Monad n]

theorem record (S : Simulation m n) {runM : String → m (Except ProbeFailure Unit)}
    {runN : String → n (Except ProbeFailure Unit)} (related : ∀ name, S.Rel (runM name) (runN name))
    (name : String) : S.Rel (record runM name) (record runN name) :=
  S.bind (related name) fun _ => S.pure _

/-- Related probes have related records. -/
theorem recordUntilFailure (S : Simulation m n) {runM : String → m (Except ProbeFailure Unit)}
    {runN : String → n (Except ProbeFailure Unit)} (related : ∀ name, S.Rel (runM name) (runN name))
    (names : List String) :
    S.Rel (recordUntilFailure runM names) (recordUntilFailure runN names) := by
  induction names with
  | nil => exact S.pure _
  | cons name names ih =>
    refine S.bind (S.record related name) fun r => ?_
    by_cases failed : r.failure.isSome
    · simp only [failed, if_true]
      exact S.pure _
    · simp only [failed, Bool.false_eq_true, if_false]
      exact S.bind ih fun _ => S.pure _

theorem mapM [LawfulMonad m] [LawfulMonad n] (S : Simulation m n) {α β : Type} {f : α → m β}
    {g : α → n β} (related : ∀ a, S.Rel (f a) (g a)) (as : List α) :
    S.Rel (as.mapM f) (as.mapM g) := by
  induction as with
  | nil => exact S.pure _
  | cons a as ih =>
    rw [List.mapM_cons, List.mapM_cons]
    exact S.bind (related a) fun _ => S.bind ih fun _ => S.pure _

/-- Targets with the same lists of probes and related probes give related checks. -/
theorem probe [LawfulMonad m] [LawfulMonad n] (S : Simulation m n) {t : Target m} {u : Target n}
    (interface : t.interface = u.interface) (address : t.address = u.address)
    (queries : t.queries = u.queries) (sends : t.sends = u.sends)
    (query : ∀ name, S.Rel (t.runQuery name) (u.runQuery name))
    (send : ∀ name, S.Rel (t.runSend name) (u.runSend name)) : S.Rel (probe t) (probe u) := by
  unfold ContractAbi.probe
  rw [interface, address, queries, sends]
  split
  · exact S.pure _
  · refine S.bind (S.recordUntilFailure query _) fun records => ?_
    split
    · exact S.pure _
    · exact S.bind (S.mapM (S.record send) _) fun _ => S.pure _

end Simulation

end ContractAbi
