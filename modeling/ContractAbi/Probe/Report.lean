import ContractAbi.Json.Basic
import ContractAbi.Probe.Target

/-!
# Checking a target

Query probes decide: they run in order up to the first that fails, and a target implements its
interface if none fails. Send probes run only then. They cannot be undone, so none runs for a target
that is not what it is taken for; what comes of them is recorded and changes nothing.
-/

namespace ContractAbi

/-- What a check says. -/
inductive Verdict where
  | implemented
  | notImplemented
  /-- There was nothing to probe. -/
  | inconclusive
  deriving DecidableEq

namespace Verdict

/-- A verdict in words. -/
def describe : Verdict → String
  | .implemented => "implemented"
  | .notImplemented => "not implemented"
  | .inconclusive => "inconclusive"

/-- The name of a verdict. -/
def tag : Verdict → String
  | .implemented => "implemented"
  | .notImplemented => "not_implemented"
  | .inconclusive => "inconclusive"

end Verdict

/-- A probe that ran, and what is reported if it failed. -/
structure ProbeRecord where
  name : String
  failure : Option String
  deriving DecidableEq

/-- The record of a probe with its result. -/
def ProbeRecord.ofResult (name : String) : Except ProbeFailure Unit → ProbeRecord
  | .ok () => ⟨name, none⟩
  | .error e => ⟨name, some e.message⟩

/-- What a check of one address against one interface found. -/
structure Report where
  interface : String
  address : Address
  verdict : Verdict
  /-- The query probes that ran. -/
  queries : List ProbeRecord
  /-- The send probes that ran. -/
  sends : List ProbeRecord
  /-- What is reported for the query probe that failed. -/
  failure : Option String
  deriving DecidableEq

/-- Whether the verdict is that the interface is implemented. -/
def Report.isImplemented (r : Report) : Bool := r.verdict == .implemented

section

variable {m : Type → Type} [Monad m]

/-- Runs a probe and records it. -/
def record (run : String → m (Except ProbeFailure Unit)) (name : String) : m ProbeRecord := do
  return .ofResult name (← run name)

/-- Runs probes in order up to the first that fails. -/
def recordUntilFailure (run : String → m (Except ProbeFailure Unit)) :
    List String → m (List ProbeRecord)
  | [] => return []
  | name :: names => do
    let r ← record run name
    if r.failure.isSome then return [r] else return r :: (← recordUntilFailure run names)

/-- Checks a target. -/
def probe (t : Target m) : m Report := do
  if t.queries.isEmpty && t.sends.isEmpty then
    return ⟨t.interface, t.address, .inconclusive, [], [], none⟩
  else
    let queries ← recordUntilFailure t.runQuery t.queries
    match queries.findSome? (·.failure) with
    | some failure => return ⟨t.interface, t.address, .notImplemented, queries, [], some failure⟩
    | none =>
      let sends ← t.sends.mapM (record t.runSend)
      return ⟨t.interface, t.address, .implemented, queries, sends, none⟩

end

open Json

/-- A record as a JSON object. -/
def ProbeRecord.toJson (r : ProbeRecord) : Json :=
  let outcome :=
    match r.failure with
    | none => [("status", .string "passed")]
    | some text => [("status", .string "failed"), ("error", .string text)]
  .object [("name", .string r.name), ("outcome", .object outcome)]

/-- A report as a JSON object. -/
def Report.toJson (r : Report) : Json :=
  .object ([("interface", .string r.interface), ("address", .string r.address.raw),
    ("verdict", .string r.verdict.tag), ("queries", .array (r.queries.map ProbeRecord.toJson)),
    ("sends", .array (r.sends.map ProbeRecord.toJson))] ++ optionalMember "failure" r.failure)

end ContractAbi
