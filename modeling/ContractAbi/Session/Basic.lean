import ContractAbi.Session.Call

/-!
# Sessions

A session is what is still to be done with contracts: either it is done, or it makes a call and goes
on with the reply. Nothing in a session says how calls are answered; that is left to a runtime,
whose replies may depend on all calls before. `Session.run` carries a session out and records its
calls.
-/

namespace ContractAbi

/-- What is still to be done. -/
inductive Session (α : Type) where
  | done (value : α)
  | call (c : Call) (next : c.Reply → Session α)

namespace Session

variable {α β γ : Type}

/-- Goes on where a session ends. -/
def bind : Session α → (α → Session β) → Session β
  | .done a, f => f a
  | .call c next, f => .call c fun reply => (next reply).bind f

instance : Monad Session where
  pure := .done
  bind := bind

theorem bind_done (s : Session α) : s.bind .done = s := by
  induction s with
  | done => rfl
  | call c next ih => simp [bind, ih]

theorem bind_assoc (s : Session α) (f : α → Session β) (g : β → Session γ) :
    (s.bind f).bind g = s.bind fun a => (f a).bind g := by
  induction s with
  | done => rfl
  | call c next ih => simp [bind, ih]

instance : LawfulMonad Session := .mk' _ bind_done (fun _ _ => rfl) bind_assoc

/-- The session of one call. -/
def ask (c : Call) : Session c.Reply := .call c .done

end Session

/-- How calls are answered, given the calls before, the last one first. -/
structure Runtime where
  reply : List Call → (c : Call) → c.Reply

namespace Session

variable {α β : Type}

/-- Carries a session out after the calls in `history`. Gives its value and the calls up to its
end, the last one first. -/
def run (r : Runtime) (history : List Call) : Session α → α × List Call
  | .done a => (a, history)
  | .call c next => run r (c :: history) (next (r.reply history c))

theorem run_bind (r : Runtime) (history : List Call) (s : Session α) (f : α → Session β) :
    (s.bind f).run r history = (f (s.run r history).1).run r (s.run r history).2 := by
  induction s generalizing history with
  | done => rfl
  | call c next ih => exact ih _ _

end Session

end ContractAbi
