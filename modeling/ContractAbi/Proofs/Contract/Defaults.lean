import ContractAbi.Proofs.Binding.Classes
import ContractAbi.Proofs.Contract.Query
import ContractAbi.Proofs.Schema.Widths
import ContractAbi.Proofs.Session.Calls
import ContractAbi.Proofs.Wire.Widths
import ContractAbi.Session.Script

/-!
# The arguments that a probe makes up

What is made up for an input is taken by it, for every category that the type of a parameter can
have: zero has room in every integer that there is, and every other default is of a kind that its
category takes. So the probe of a query that a model lists asks the runtime, once and with these
values, and its error can only be that of the call or that of what comes back
(`Contract.probeQuery_run`).
-/

namespace ContractAbi

open Binding (Model Query)

/-- Zero fits into any integer of at least one bit. -/
theorem inRange_zero {bits : Nat} {signed : Bool} (positive : 1 ≤ bits) :
    InRange bits signed 0 := by
  have lower : (0 : Int) < 2 ^ (bits - 1) := by exact_mod_cast Nat.two_pow_pos _
  have upper : (0 : Int) < 2 ^ bits := by exact_mod_cast Nat.two_pow_pos _
  unfold InRange
  cases signed with
  | false => exact ⟨Int.le_refl 0, upper⟩
  | true => exact ⟨by omega, by omega, lower⟩

/-- An input takes the value that is made up for it. -/
theorem Category.Bounded.inputFault?_default {c : Category} (bounded : c.Bounded) :
    c.inputFault? (c.defaultValue .queryInput).wireValue = none := by
  cases c with
  | integer bits signed => exact inputFault?_integer.mpr (inRange_zero bounded.1)
  | _ => rfl

namespace Contract

variable {doc : Document} {c : Contract} {q : Query} {method : String} {e : BindingError}
  {reply : Except CallError (List WireValue)}

/-- What comes of a reply is an error of the call or of the entries that came back. -/
theorem Answers.error_cases (answers : Answers method q reply (.error e)) :
    (∃ source, e = .invocation method source) ∨ ∃ source, e = .shape method source := by
  cases answers with
  | shape misreads => exact .inr ⟨_, rfl⟩
  | invocation source => exact .inl ⟨source, rfl⟩

section

variable (ofModel : c.type ∈ (Model.ofDocument doc).classes) (listed : q ∈ c.type.queries)

include ofModel listed

/-- The categories of inputs are read from the types of parameters. -/
theorem bounded_inputs : ∀ f ∈ q.inputs, f.category.Bounded := by
  obtain ⟨g, -, shape⟩ := Model.exists_getMethod ofModel listed
  have inputs : q.inputs = Binding.fieldsOf Category.ofParameter g.inputs :=
    congrArg (fun shape => shape.2.1) shape
  intro f member
  rw [inputs] at member
  obtain ⟨p, -, category⟩ := Binding.exists_of_mem_fieldsOf member
  rw [category]
  exact Category.bounded_ofParameter p

/-- A query with the default arguments is one that is asked. -/
theorem asks_defaultArgs : c.Asks q.method q.defaultArgs q := by
  refine ⟨Model.query?_of_mem ofModel listed, ?_, ?_⟩
  · rw [Query.defaultArgs, List.length_map]
  · intro pair member
    obtain ⟨i, place⟩ := List.mem_iff_getElem?.mp member
    obtain ⟨input, value⟩ := List.getElem?_zip_eq_some.mp place
    have bounded := bounded_inputs ofModel listed pair.1 (List.mem_of_getElem? input)
    rw [Query.defaultArgs, List.getElem?_map, input, Option.map_some, Option.some_inj] at value
    rw [← value]
    exact bounded.inputFault?_default

/-- The probe of a query that a model lists passes the checks of its own arguments. It asks the
runtime once, with these arguments, and fails only if the call fails or if what comes back has not
the declared shape. -/
theorem probeQuery_run (R : Runtime) (history : List Call) :
    q.checkArgs q.defaultArgs = .ok () ∧
      ∃ result, Answers q.method q (R.reply history (.query c.address q.method q.defaultArgs)) result ∧
        (c.probeQuery q.method).run.run R history =
          (result.map fun _ => (), .query c.address q.method q.defaultArgs :: history) ∧
        ∀ e, ((c.probeQuery q.method).run.run R history).1 = .error e →
          (∃ source, e = .invocation q.method source) ∨ ∃ source, e = .shape q.method source := by
  have asks := asks_defaultArgs ofModel listed
  obtain ⟨result, answers, asked⟩ : ∃ result,
      Answers q.method q (R.reply history (.query c.address q.method q.defaultArgs)) result ∧
        (c.query q.method q.defaultArgs).run.run R history =
          (result, .query c.address q.method q.defaultArgs :: history) :=
    ⟨_, (answers_iff rfl).mp rfl, run_of_asks asks⟩
  -- The probe is the query with its values thrown away.
  have ran : (c.probeQuery q.method).run.run R history =
      (result.map fun _ => (), .query c.address q.method q.defaultArgs :: history) := by
    rw [probeQuery_eq_discard asks.found, Access.run_discard, asked]
  refine ⟨asks.checkArgs_eq_ok, result, answers, ran, ?_⟩
  intro e failed
  rw [ran] at failed
  cases result with
  | ok values => cases failed
  | error source =>
    cases failed
    exact answers.error_cases

end

/-- A description with one get-method, one of whose inputs has no type. -/
def collections : Document where
  interfaces := [⟨"nft_collection", none, none, ["get_nft_address_by_index"], [], []⟩]
  getMethods := [⟨"get_nft_address_by_index",
    [⟨some "int", "index", ""⟩, ⟨some "slice", "owner", "MsgAddress"⟩],
    [⟨some "slice", "address", "MsgAddress"⟩]⟩]
  messages := []

def nftAddress : Query where
  method := "get_nft_address_by_index"
  ident := "get_nft_address_by_index"
  probeIdent := "probe_get_nft_address_by_index"
  probeWithIdent := some "probe_get_nft_address_by_index_with"
  inputs := [⟨"index", "index", .integer 257 true⟩, ⟨"owner", "owner", .address⟩]
  result := .single ⟨"address", "address", .address⟩

/-- A contract with the interface of the description. -/
def nftCollection : Contract where
  type := ⟨"nft_collection", "NftCollection", "nft_collection", none, ["nft_collection"],
    [nftAddress], [], []⟩
  address := .zero

/-- A contract that gives a number for an address is asked for it with zero and null, and it fails
for the number. -/
theorem probeQuery_run_collection :
    nftCollection.type ∈ (Model.ofDocument collections).classes ∧
      nftAddress ∈ nftCollection.type.queries ∧
      nftAddress.checkArgs [.int 0, .null] = .ok () ∧
      (nftCollection.probeQuery "get_nft_address_by_index").run.run
          (Script.runtime ⟨[("get_nft_address_by_index", .ok [.int 7])], [], none, []⟩) [] =
        (.error (.shape "get_nft_address_by_index" (.typeMismatch 0 .address .int)),
          [.query .zero "get_nft_address_by_index" [.int 0, .null]]) := by
  have ofModel : nftCollection.type ∈ (Model.ofDocument collections).classes := by decide +kernel
  have listed : nftAddress ∈ nftCollection.type.queries := List.mem_singleton_self nftAddress
  obtain ⟨checked, result, answers, ran, -⟩ := probeQuery_run ofModel listed
    (Script.runtime ⟨[("get_nft_address_by_index", .ok [.int 7])], [], none, []⟩) []
  have answered := (answers_iff rfl).mpr answers
  refine ⟨ofModel, listed, checked, ran.trans ?_⟩
  rw [← answered]
  rfl

end Contract

end ContractAbi
