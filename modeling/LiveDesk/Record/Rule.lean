import LiveDesk.Json.Record

/-!
# Rule simulations

- `SimulationRequest`: a rule and the sample input it is tried on.
- `SimulationResult`: whether the rule matched and what it would do.
-/

namespace LiveDesk

/-- A rule and the sample input it is tried on. -/
structure SimulationRequest where
  rule : String
  input : Dictionary
  deriving DecidableEq, Inhabited

/-- What came of trying a rule. -/
structure SimulationResult where
  matched : Bool
  /-- The actions that the rule would set off, in order. -/
  actions : List String
  /-- The steps of the evaluation, for display. -/
  trace : List String
  deriving DecidableEq, Repr, Inhabited

namespace SimulationRequest

open Json Json.Reader

/-- The fields of a request in documents. -/
def fields : Fields [String, Dictionary] :=
  (required "rule" text, required "input" dict, ())

/-- Reads a request. -/
def read : Reader SimulationRequest := do
  let (rule, input, _) ← record fields
  return { rule, input }

/-- The request as a value. -/
def toJson (request : SimulationRequest) : Json :=
  .record [("rule", .text request.rule), ("input", ofDictionary request.input)]

end SimulationRequest

namespace SimulationResult

open Json Json.Reader

/-- The fields of a result in documents. -/
def fields : Fields [Bool, List String, List String] :=
  (required "matched" boolean, required "actions" (list text), required "trace" (list text), ())

/-- Reads a result. -/
def read : Reader SimulationResult := do
  let (matched, actions, trace, _) ← record fields
  return { matched, actions, trace }

/-- The result as a value. -/
def toJson (result : SimulationResult) : Json :=
  .record [("matched", .bool result.matched), ("actions", .ofTexts result.actions),
    ("trace", .ofTexts result.trace)]

end SimulationResult

end LiveDesk
