import ContractAbi.Proofs.Wire.Reading

/-!
# What a query asks, and what comes of it

A query is checked as a whole before the runtime is asked (`Asks`); if it is not refused
(`Refuses`), the runtime is asked once, and what it answers decides what comes of the query
(`Answers`). The result and the calls of every query are determined by these three (`query_run`).
-/

namespace ContractAbi

open Binding (Field Query ReadsAll MisreadsFirst)

variable {method : String} {args : List WireValue} {q : Query} {R : Runtime} {history : List Call}

namespace Contract

/-- The query is one of the contract's, and each of its inputs takes its argument. -/
structure Asks (c : Contract) (method : String) (args : List WireValue) (q : Query) : Prop where
  found : c.type.query? method = some q
  count : args.length = q.inputs.length
  takes : ∀ pair ∈ q.inputs.zip args, pair.1.category.inputFault? pair.2 = none

/-- The query is refused without a call: the contract has no such get-method, the number of
arguments is wrong, or an input does not take its argument, the first of them. -/
inductive Refuses (c : Contract) (method : String) (args : List WireValue) :
    BindingError → Prop where
  | unknown (absent : c.type.query? method = none) :
      Refuses c method args (.unknownMember c.type.interface method)
  | arity {q : Query} (found : c.type.query? method = some q)
      (count : args.length ≠ q.inputs.length) :
      Refuses c method args (.arity method q.inputs.length args.length)
  | argument {q : Query} {before after : List (Field × WireValue)} {f : Field} {arg : WireValue}
      {expected : Expectation} (found : c.type.query? method = some q)
      (count : args.length = q.inputs.length)
      (split : q.inputs.zip args = before ++ (f, arg) :: after)
      (takes : ∀ pair ∈ before, pair.1.category.inputFault? pair.2 = none)
      (fault : f.category.inputFault? arg = some expected) :
      Refuses c method args (.argument method f.name expected arg.kind)

/-- What comes of a query that the runtime replies to. -/
inductive Answers (method : String) (q : Query) :
    Except CallError (List WireValue) → Except BindingError (List WireValue) → Prop where
  | values {items values : List WireValue} (reads : ReadsAll q.result.fields items values) :
      Answers method q (.ok items) (.ok values)
  | shape {items : List WireValue} {e : StackError}
      (misreads : MisreadsFirst 0 q.result.fields items e) :
      Answers method q (.ok items) (.error (.shape method e))
  | invocation (e : CallError) : Answers method q (.error e) (.error (.invocation method e))

end Contract

namespace Binding.Query

/-- Arguments pass where each one fits its parameter. -/
theorem checkFields_eq_ok {pairs : List (Field × WireValue)}
    (takes : ∀ pair ∈ pairs, pair.1.category.inputFault? pair.2 = none) :
    checkFields method pairs = .ok () := by
  induction pairs with
  | nil => rfl
  | cons pair pairs ih =>
    rw [checkFields, takes pair List.mem_cons_self]
    exact ih fun other among => takes other (List.mem_cons_of_mem _ among)

/-- The first argument that does not fit is the one that is reported. -/
theorem checkFields_eq_error {before after : List (Field × WireValue)} {f : Field}
    {arg : WireValue} {expected : Expectation}
    (takes : ∀ pair ∈ before, pair.1.category.inputFault? pair.2 = none)
    (fault : f.category.inputFault? arg = some expected) :
    checkFields method (before ++ (f, arg) :: after) =
      .error (.argument method f.name expected arg.kind) := by
  induction before with
  | nil =>
    rw [List.nil_append, checkFields, fault]
  | cons pair before ih =>
    rw [List.cons_append, checkFields, takes pair List.mem_cons_self]
    exact ih fun other among => takes other (List.mem_cons_of_mem _ among)

/-- Either every field takes its argument, or there is a first one that does not. -/
theorem takes_or_first (pairs : List (Field × WireValue)) :
    (∀ pair ∈ pairs, pair.1.category.inputFault? pair.2 = none) ∨
      ∃ before f arg after expected, pairs = before ++ (f, arg) :: after ∧
        (∀ pair ∈ before, pair.1.category.inputFault? pair.2 = none) ∧
        f.category.inputFault? arg = some expected := by
  induction pairs with
  | nil => exact .inl (by simp)
  | cons pair pairs ih =>
    obtain ⟨f, arg⟩ := pair
    cases fault : f.category.inputFault? arg with
    | some expected =>
      exact .inr ⟨[], f, arg, pairs, expected, rfl, by simp, fault⟩
    | none =>
      obtain takes | ⟨before, g, other, after, expected, rfl, takes, refused⟩ := ih
      · exact .inl (List.forall_mem_cons.mpr ⟨fault, takes⟩)
      · exact .inr ⟨(f, arg) :: before, g, other, after, expected, rfl,
          List.forall_mem_cons.mpr ⟨fault, takes⟩, refused⟩

/-- Results are read just where each item is read by its category, with as many items as fields. -/
theorem readResults_eq_ok {items values : List WireValue} :
    q.readResults items = .ok values ↔ ReadsAll q.result.fields items values := by
  have run : (∃ t, readFields q.result.fields (.ofList items) = .ok values t) ↔
      ReadsAll q.result.fields items values := Binding.readFields_eq_ok
  rw [← run, readResults]
  cases readFields q.result.fields (.ofList items) <;> simp

/-- Results are refused just at their first misfit. -/
theorem readResults_eq_error {items : List WireValue} {e : BindingError} :
    q.readResults items = .error e ↔
      ∃ source, MisreadsFirst 0 q.result.fields items source ∧ e = .shape q.method source := by
  have run : ∀ source, (∃ t, readFields q.result.fields (.ofList items) = .error source t) ↔
      MisreadsFirst 0 q.result.fields items source := fun source => Binding.readFields_eq_error
  simp only [← run, readResults]
  cases readFields q.result.fields (.ofList items) <;> simp [eq_comm]

/-- A class finds a query by its method. -/
theorem method_of_query? {c : Class} (found : c.query? method = some q) : q.method = method := by
  have same := List.find?_some found
  simpa using same

end Binding.Query

theorem Access.ok_bind {α β : Type} (a : α) (f : α → Access β) :
    ((liftM (.ok a : Except BindingError α) : Access α) >>= f) = f a :=
  rfl

namespace Contract

variable {c : Contract} {e : BindingError}

/-- The probe of a query that there is asks it with the values that are made up for it. -/
theorem probeQuery_eq_discard (found : c.type.query? method = some q) :
    c.probeQuery method = discard (c.query method q.defaultArgs) := by
  simp only [probeQuery, queryOf, found, Access.ok_bind]

theorem asks_or_refuses (c : Contract) (method : String) (args : List WireValue) :
    (∃ q, c.Asks method args q) ∨ ∃ e, c.Refuses method args e := by
  cases found : c.type.query? method with
  | none => exact .inr ⟨_, .unknown found⟩
  | some q =>
    by_cases count : args.length = q.inputs.length
    · obtain takes | ⟨before, f, arg, after, expected, split, takes, fault⟩ :=
        Query.takes_or_first (q.inputs.zip args)
      · exact .inl ⟨q, found, count, takes⟩
      · exact .inr ⟨_, .argument found count split takes fault⟩
    · exact .inr ⟨_, .arity found count⟩

/-- What the query makes of a reply is what comes of it. -/
theorem answers_iff {reply : Except CallError (List WireValue)}
    {result : Except BindingError (List WireValue)} (name : q.method = method) :
    (reply.mapError (.invocation method) >>= q.readResults) = result ↔
      Answers method q reply result := by
  -- A failed call is passed on; of the items of a reply the results are read.
  cases reply with
  | error e =>
    constructor
    · rintro rfl
      exact .invocation e
    · rintro ⟨⟩
      rfl
  | ok items =>
    change q.readResults items = result ↔ _
    cases result with
    | ok values =>
      rw [Query.readResults_eq_ok]
      constructor
      · exact .values
      · intro answers
        cases answers with
        | values reads => exact reads
    | error e =>
      rw [Query.readResults_eq_error, name]
      constructor
      · rintro ⟨source, misreads, rfl⟩
        exact .shape misreads
      · intro answers
        cases answers with
        | shape misreads => exact ⟨_, misreads, rfl⟩

/-- A query that is refused makes no call. -/
theorem run_of_refuses (refuses : c.Refuses method args e) :
    (c.query method args).run.run R history = (.error e, history) := by
  cases refuses with
  | unknown absent =>
    simp only [query, queryOf, absent]
    rfl
  | @arity q found count =>
    have check : q.checkArgs args = .error (.arity method q.inputs.length args.length) := by
      rw [Query.checkArgs, if_pos count, Query.method_of_query? found]
    simp only [query, queryOf, found]
    change Session.run R history (ExceptT.run (liftM (q.checkArgs args) >>= _)) = _
    rw [check]
    rfl
  | @argument q _ _ f arg expected found count split takes fault =>
    have check : q.checkArgs args = .error (.argument method f.name expected arg.kind) := by
      rw [Query.checkArgs, if_neg (not_not_intro count), split,
        Query.checkFields_eq_error takes fault, Query.method_of_query? found]
    simp only [query, queryOf, found]
    change Session.run R history (ExceptT.run (liftM (q.checkArgs args) >>= _)) = _
    rw [check]
    rfl

theorem Asks.checkArgs_eq_ok (asks : c.Asks method args q) : q.checkArgs args = .ok () := by
  rw [Query.checkArgs, if_neg (not_not_intro asks.count), Query.checkFields_eq_ok asks.takes]

/-- A query that is asked makes one call and reads its results. -/
theorem run_of_asks (asks : c.Asks method args q) :
    (c.query method args).run.run R history =
      ((R.reply history (.query c.address method args)).mapError (.invocation method) >>=
        q.readResults, .query c.address method args :: history) := by
  simp only [query, queryOf, asks.found]
  change Session.run R history (ExceptT.run (liftM (q.checkArgs args) >>= _)) = _
  rw [asks.checkArgs_eq_ok]
  change Session.run R (_ :: history) (Session.bind (.done _) _) = _
  cases R.reply history (.query c.address method args) <;> rfl

/-- The runtime is asked once, for that method with these arguments, if the contract has the method
and its inputs take the arguments, and else not at all. A reply gives the values of all outputs, one
by one, as long as each of its entries up to the number of outputs is one; what is wrong with the
first that is not, or with the call, is the error. -/
theorem query_run (c : Contract) (method : String) (args : List WireValue) (R : Runtime)
    (history : List Call) (result : Except BindingError (List WireValue)) (calls : List Call) :
    (c.query method args).run.run R history = (result, calls) ↔
      (∃ q, c.Asks method args q ∧ calls = .query c.address method args :: history ∧
        Answers method q (R.reply history (.query c.address method args)) result) ∨
      ∃ e, c.Refuses method args e ∧ calls = history ∧ result = .error e := by
  constructor
  · intro ran
    obtain ⟨q, asks⟩ | ⟨e, refuses⟩ := c.asks_or_refuses method args
    · rw [run_of_asks asks] at ran
      obtain ⟨came, rfl⟩ := Prod.mk.inj ran
      exact .inl ⟨q, asks, rfl, (answers_iff (Query.method_of_query? asks.found)).mp came⟩
    · rw [run_of_refuses refuses] at ran
      obtain ⟨rfl, rfl⟩ := Prod.mk.inj ran
      exact .inr ⟨e, refuses, rfl, rfl⟩
  · rintro (⟨q, asks, rfl, answers⟩ | ⟨e, refuses, rfl, rfl⟩)
    · rw [run_of_asks asks, (answers_iff (Query.method_of_query? asks.found)).mpr answers]
    · exact run_of_refuses refuses

end Contract

end ContractAbi
