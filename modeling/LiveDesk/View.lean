import LiveDesk.Record.Job
import LiveDesk.Record.Page
import LiveDesk.Record.Rule
import LiveDesk.Record.SavedQuery
import LiveDesk.Record.TableField
import LiveDesk.Record.Template

/-!
# Values of projections

All projections of the desk hold values of one type, so that a projection can be derived from any
other.

- `View`: the values.
- `View.toJson`: a value as it is shown.
- `Recipe`: how a projection is derived from a state, directly or through another projection.
-/

namespace LiveDesk

/-- The value of a projection. -/
inductive View where
  | flag (b : Bool)
  | count (n : Nat)
  | names (items : List String)
  | jobs (items : List Job)
  | templates (items : List Template)
  | template (t : Option Template)
  | result (r : Option SimulationResult)
  | verdict (b : Option Bool)
  | fields (items : List TableField)
  | queries (items : List SavedQuery)
  | json (v : Json)
  deriving DecidableEq

namespace View

/-- A value as it is shown. -/
def toJson : View → Json
  | .flag b => .bool b
  | .count n => .ofNat n
  | .names xs => .ofTexts xs
  | .jobs items => .list (items.map Job.toJson)
  | .templates items => .list (items.map Template.toJson)
  | .template t => (t.map Template.toJson).getD .null
  | .result r => (r.map SimulationResult.toJson).getD .null
  | .verdict b => (b.map Json.bool).getD .null
  | .fields fs => .list (fs.map TableField.toJson)
  | .queries items => .list (items.map SavedQuery.toJson)
  | .json v => v

end View

/-- How a projection is derived from a state. -/
inductive Recipe (S : Type) where
  /-- From the state itself. -/
  | direct (select : S → View)
  /-- From a projection of the state. -/
  | derived (select : S → View) (next : View → View)

end LiveDesk
