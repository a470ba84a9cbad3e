import LiveDesk.Feature.Session
import LiveDesk.Text.Blank
import LiveDesk.View

/-!
# The rule simulator

Keeps the rule and the sample input that the user is editing, with the latest result.

- `RuleSimulator.feature`: the edits, and simulating. A blank rule is refused before the backend is
  asked; a failed simulation keeps the result.
- `RuleSimulator.views`: the projections.
-/

namespace LiveDesk.RuleSimulator

open Observable

/-- The rule and the sample input with the latest result. -/
structure State where
  rule : String
  input : Dictionary
  result : Option SimulationResult
  isLoading : Bool
  deriving DecidableEq, Inhabited

namespace State

/-- Nothing entered. -/
def opening : State :=
  { rule := "", input := .empty, result := none, isLoading := false }

/-- The state as a value. -/
def toJson (s : State) : Json :=
  .record [("rule", .text s.rule), ("input", .ofDictionary s.input),
    ("result", (s.result.map SimulationResult.toJson).getD .null),
    ("is_loading", .bool s.isLoading)]

/-- The state in short. -/
def summary (s : State) : Json :=
  .record [("rule", .text s.rule), ("has_result", .bool s.result.isSome),
    ("is_loading", .bool s.isLoading)]

end State

/-- The edits. -/
inductive Edit where
  | setRule (rule : String)
  | setInput (key value : String)
  | removeInput (key : String)
  /-- Clears the input and the result and keeps the rule. -/
  | clear
  deriving Repr

/-- Asks for a simulation of the rule on the input. -/
inductive Ask where
  | simulate
  deriving Repr

/-- Why a simulation is refused. -/
inductive Refusal where
  | emptyRule
  deriving DecidableEq, Repr

namespace Refusal

/-- The text that describes a refusal. -/
def description : Refusal → String
  | .emptyRule => "rule must not be blank"

end Refusal

/-- The entries of the simulator in the log. -/
def entry (level : LogLevel) (status : String) (details : List (String × String)) : LogEntry :=
  { level, event := "rule_simulate", origin := "feature.rule_simulator", status, details }

/-- The loading flag. -/
def flag : Flag State where
  raise s := { s with isLoading := true }
  lower s := { s with isLoading := false }
  label := "rule_simulator:simulate:finally"

/-- What an edit publishes. -/
def edit (s : State) : Edit → Publication State
  | .setRule rule => ⟨.update fun s => { s with rule }, "rule_simulator:set_rule"⟩
  | .setInput key value =>
    ⟨.update fun s => { s with input := s.input.insert key value },
      "rule_simulator:set_input_field"⟩
  | .removeInput key =>
    ⟨.update fun s => { s with input := s.input.erase key },
      "rule_simulator:remove_input_field"⟩
  | .clear => ⟨.reset fun initial => { initial with rule := s.rule }, "rule_simulator:clear"⟩

/-- The rule simulator. -/
def feature : Feature where
  name := "rule_simulator"
  State := State
  Edit := Edit
  Ask := Ask
  Call := SimulationRequest
  Request := SimulationRequest
  Payload := SimulationResult
  Value := SimulationResult
  Refusal := Refusal
  edit e s := some (edit s e)
  answer _ _ := none
  accept
    | .simulate, s =>
      if Text.allBlank s.rule then .refuse .emptyRule
      else .proceed { rule := s.rule, input := s.input }
  prelude _ _ := none
  opening c := some (entry .info "start" [("input_fields", toString c.input.size)])
  flag _ := flag
  request c := c
  settle _ result _ := some (.store (fun s => { s with result := some result })
    "rule_simulator:simulate:ok"
    (some (entry .info "ok"
      [("matched", toString result.matched), ("actions", toString result.actions.length)]))
    none result)
  failure _ kind := some (entry .warn "error" [("error_kind", kind.name)])
  describe := Refusal.description

/-- Reads the answer to a call. -/
def readPayload (_ : SimulationRequest) : Json.Reader SimulationResult := SimulationResult.read

/-- Whether the rule matched, from the result. -/
def verdict : View → View
  | .result r => .verdict (r.map (·.matched))
  | _ => .verdict none

/-- The projections of the simulator. -/
def views : List (String × Recipe State) :=
  [("result", .direct fun s => .result s.result),
    ("matched", .derived (fun s => .result s.result) verdict),
    ("is_loading", .direct fun s => .flag s.isLoading)]

end LiveDesk.RuleSimulator
