import Mathlib.Data.List.Perm.Basic
import Mathlib.Logic.Relation
import ContractAbi.Session.Basic

/-!
# Sessions side by side

Sessions that run side by side make their calls in any order in which each of them makes its own
calls one after another: in a step one of them, whichever it is, makes its next call
(`Interleaving.Step`). A memoryless runtime answers a call the same way whatever was called before.
With such a runtime the order has no influence on the values, and all orders make the same calls:
what is still to come of the sessions stays the same with every step (`Step.values`, `Step.perm`),
and so it does in a whole run (`Steps.values`, `Steps.perm`).
-/

namespace ContractAbi

/-- The reply to a call depends on the call only. -/
def Runtime.Memoryless (R : Runtime) : Prop :=
  ∀ (before after : List Call) (c : Call), R.reply before c = R.reply after c

namespace Session

variable {α β : Type} {R : Runtime}

/-- The value that a session comes to on its own. -/
def value (R : Runtime) (s : Session α) : α := (s.run R []).1

/-- The calls that a session makes on its own, the last one first. -/
def calls (R : Runtime) (s : Session α) : List Call := (s.run R []).2

/-- Without a memory, a session runs in the same way after every history. -/
theorem run_memoryless (memoryless : R.Memoryless) (s : Session α) (history : List Call) :
    s.run R history = (s.value R, s.calls R ++ history) := by
  -- What follows the first call runs behind it, so that the history grows in the induction.
  induction s generalizing history with
  | done a => rfl
  | call c next ih =>
    have same : R.reply history c = R.reply [] c := memoryless history [] c
    have first := ih (R.reply [] c) [c]
    simp only [value, calls, run, same] at first ⊢
    rw [ih _ (c :: history), first]
    simp [value, calls]

theorem value_call (memoryless : R.Memoryless) (c : Call) (next : c.Reply → Session α)
    (history : List Call) : (call c next).value R = (next (R.reply history c)).value R := by
  rw [memoryless history [] c]
  change ((next (R.reply [] c)).run R [c]).1 = _
  rw [run_memoryless memoryless]

theorem calls_call (memoryless : R.Memoryless) (c : Call) (next : c.Reply → Session α)
    (history : List Call) :
    (call c next).calls R = (next (R.reply history c)).calls R ++ [c] := by
  rw [memoryless history [] c]
  change ((next (R.reply [] c)).run R [c]).2 = _
  rw [run_memoryless memoryless]

theorem value_bind (memoryless : R.Memoryless) (s : Session α) (f : α → Session β) :
    (s >>= f).value R = (f (s.value R)).value R := by
  change ((s.bind f).run R []).1 = _
  rw [run_bind, run_memoryless memoryless s [], run_memoryless memoryless (f (s.value R))]

theorem value_map (memoryless : R.Memoryless) (s : Session α) (f : α → β) :
    (f <$> s).value R = f (s.value R) := by
  rw [← bind_pure_comp, value_bind memoryless]
  rfl

end Session

/-- Sessions that run side by side, and the calls so far, the last one first. -/
structure Interleaving (α : Type) where
  sessions : List (Session α)
  history : List Call

namespace Interleaving

open Relation

variable {α β : Type} {R : Runtime} {i j : Interleaving α}

/-- One of the sessions makes its next call. -/
inductive Step (R : Runtime) : Interleaving α → Interleaving α → Prop
  | turn (front back : List (Session α)) (c : Call) (next : c.Reply → Session α)
      (history : List Call) :
      Step R ⟨front ++ .call c next :: back, history⟩
        ⟨front ++ next (R.reply history c) :: back, c :: history⟩

/-- Sessions make calls, one after another and in any order. -/
abbrev Steps (R : Runtime) : Interleaving α → Interleaving α → Prop := ReflTransGen (Step R)

/-- All sessions are done, with these values. -/
def Ended (i : Interleaving α) (values : List α) : Prop := i.sessions = values.map .done

/-- The values that the sessions come to. -/
def values (R : Runtime) (i : Interleaving α) : List α := i.sessions.map (·.value R)

/-- The calls so far together with those that the sessions still make. -/
def allCalls (R : Runtime) (i : Interleaving α) : List Call :=
  i.sessions.flatMap (·.calls R) ++ i.history

theorem Ended.values {reports : List α} (ended : i.Ended reports) : i.values R = reports := by
  rw [Interleaving.values, ended, List.map_map]
  exact List.map_id reports

theorem Ended.allCalls {reports : List α} (ended : i.Ended reports) :
    i.allCalls R = i.history := by
  have nothing : ∀ reports : List α, (reports.map .done).flatMap (Session.calls R) = [] := by
    intro reports
    induction reports with
    | nil => rfl
    | cons report reports ih => exact ih
  rw [Interleaving.allCalls, ended, nothing, List.nil_append]

/-- Until all sessions are done one of them has a call to make. -/
theorem exists_step_or_ended (R : Runtime) (i : Interleaving α) :
    (∃ j, Step R i j) ∨ ∃ values, i.Ended values := by
  obtain ⟨sessions, history⟩ := i
  induction sessions with
  | nil => exact Or.inr ⟨[], rfl⟩
  | cons s sessions ih =>
    cases s with
    | call c next => exact Or.inl ⟨_, .turn [] sessions c next history⟩
    | done a =>
      rcases ih with ⟨j, step⟩ | ⟨values, ended⟩
      · -- The first session is done, and one of those behind it makes a call.
        generalize same : (⟨sessions, history⟩ : Interleaving α) = i at step
        cases step with
        | turn front back c next =>
          cases same
          exact Or.inl ⟨_, .turn (.done a :: front) back c next history⟩
      · refine Or.inr ⟨a :: values, ?_⟩
        rw [Ended, List.map_cons, show sessions = values.map .done from ended]

/-- A step does not change what the sessions return in the end. -/
theorem Step.values (memoryless : R.Memoryless) (step : Step R i j) :
    j.values R = i.values R := by
  cases step with
  | turn front back c next history =>
    simp [Interleaving.values, Session.value_call memoryless c next history]

/-- A step moves a call from those that are still to come to those that were made. -/
theorem Step.perm (memoryless : R.Memoryless) (step : Step R i j) :
    (j.allCalls R).Perm (i.allCalls R) := by
  cases step with
  | turn front back c next history =>
    simp only [Interleaving.allCalls, List.flatMap_append, List.flatMap_cons,
      Session.calls_call memoryless c next history, List.append_assoc]
    apply List.Perm.append_left
    apply List.Perm.append_left
    exact List.perm_middle

theorem Steps.values (memoryless : R.Memoryless) (steps : Steps R i j) :
    j.values R = i.values R := by
  induction steps with
  | refl => rfl
  | tail _ step ih => exact (step.values memoryless).trans ih

/-- The calls of all sessions are made, in some order. -/
theorem Steps.perm (memoryless : R.Memoryless) (steps : Steps R i j) :
    (j.allCalls R).Perm (i.allCalls R) := by
  induction steps with
  | refl => exact .refl _
  | tail _ step ih => exact (step.perm memoryless).trans ih

theorem Steps.length_history_le (memoryless : R.Memoryless) (steps : Steps R i j) :
    j.history.length ≤ (i.allCalls R).length := by
  rw [← (steps.perm memoryless).length_eq, allCalls, List.length_append]
  exact Nat.le_add_left _ _

/-- A session may make all its calls in a row. -/
theorem steps_run (R : Runtime) (front back : List (Session α)) (s : Session α)
    (history : List Call) : Steps R ⟨front ++ s :: back, history⟩
      ⟨front ++ .done (s.run R history).1 :: back, (s.run R history).2⟩ := by
  induction s generalizing history with
  | done a => exact .refl
  | call c next ih => exact .head (.turn front back c next history) (ih _ _)

theorem steps_mapM_behind (R : Runtime) (f : β → Session α) (xs : List β) (front : List α)
    (history : List Call) :
    Steps R ⟨front.map .done ++ xs.map f, history⟩
      ⟨(front ++ ((xs.mapM f).run R history).1).map .done, ((xs.mapM f).run R history).2⟩ := by
  -- The sessions in front are done; the next one joins them with its value.
  induction xs generalizing front history with
  | nil =>
    have nothing : ((([] : List β).mapM f).run R history) = ([], history) := rfl
    rw [nothing, List.append_nil, List.map_nil, List.append_nil]
  | cons x xs ih =>
    have first := steps_run R (front.map .done) (xs.map f) (f x) history
    have rest := ih (front ++ [((f x).run R history).1]) ((f x).run R history).2
    have step : ((x :: xs).mapM f).run R history =
        (((f x).run R history).1 :: ((xs.mapM f).run R ((f x).run R history).2).1,
          ((xs.mapM f).run R ((f x).run R history).2).2) := by
      rw [List.mapM_cons]
      refine (Session.run_bind R history (f x) _).trans ?_
      exact Session.run_bind R _ (xs.mapM f) _
    rw [step]
    refine .trans first ?_
    simpa using rest

/-- One way to run sessions side by side is to run each one when the one before it is done. -/
theorem steps_mapM (R : Runtime) (f : β → Session α) (xs : List β) (history : List Call) :
    Steps R ⟨xs.map f, history⟩
      ⟨((xs.mapM f).run R history).1.map .done, ((xs.mapM f).run R history).2⟩ :=
  steps_mapM_behind R f xs [] history

end Interleaving

end ContractAbi
