import LiveDesk.Feature.Document
import LiveDesk.Feature.Jobs
import LiveDesk.Feature.RuleSimulator
import LiveDesk.Feature.SavedQueries
import LiveDesk.Feature.TableFields
import LiveDesk.Feature.Templates
import LiveDesk.Settings

/-!
# The parts of a desk

A part is one feature store of a desk. What differs from part to part is found here by name, so that
everything above treats all parts alike.

- `Part.feature`: the feature of a part.
- `Part.views`: its projections.
- `Part.shown`: what a subscriber is shown.
- `Part.readPayload`: the answers of its backend.
- `Messages.text`: the words of its notices.
-/

namespace LiveDesk

open Observable

/-- A part of a desk. -/
inductive Part where
  | document
  | jobs
  | templates
  | ruleSimulator
  | tableFields
  | savedQueries
  deriving DecidableEq, Repr, Inhabited

namespace Part

/-- All parts. -/
def all : List Part := [.document, .jobs, .templates, .ruleSimulator, .tableFields, .savedQueries]

/-- The feature of a part. -/
@[reducible] def feature : Part → Feature
  | .document => Document.feature
  | .jobs => Jobs.feature
  | .templates => Templates.feature
  | .ruleSimulator => RuleSimulator.feature
  | .tableFields => TableFields.feature
  | .savedQueries => SavedQueries.feature

/-- The projections of a part. -/
def views : (p : Part) → List (String × Recipe p.feature.State)
  | .document => Document.views
  | .jobs => Jobs.views
  | .templates => Templates.views
  | .ruleSimulator => RuleSimulator.views
  | .tableFields => TableFields.views
  | .savedQueries => SavedQueries.views

/-- A state as a value. -/
def stateJson : (p : Part) → p.feature.State → Json
  | .document => Document.State.toJson
  | .jobs => Jobs.State.toJson
  | .templates => Templates.State.toJson
  | .ruleSimulator => RuleSimulator.State.toJson
  | .tableFields => TableFields.State.toJson
  | .savedQueries => SavedQueries.State.toJson

/-- A state in short; a document is short enough as it is. -/
def summary : (p : Part) → p.feature.State → Json
  | .document => Document.State.toJson
  | .jobs => Jobs.State.summary
  | .templates => Templates.State.summary
  | .ruleSimulator => RuleSimulator.State.summary
  | .tableFields => TableFields.State.summary
  | .savedQueries => SavedQueries.State.summary

/-- What a subscriber is shown of a signal. -/
def shown (p : Part) : Signal p.feature.State View → Json
  | .snapshot x => p.summary x.state
  | .view v => v.toJson

/-- Reads the answer to a call. No backend answers the calls of a document. -/
def readPayload : (p : Part) → p.feature.Call → Json.Reader p.feature.Payload
  | .document => fun _ => Json.Reader.fault .mismatched
  | .jobs => Jobs.readPayload
  | .templates => Templates.readPayload
  | .ruleSimulator => RuleSimulator.readPayload
  | .tableFields => TableFields.readPayload
  | .savedQueries => SavedQueries.readPayload

end Part

namespace Messages

/-- The words of a notice; a part that does not give it has none. -/
def text (m : Messages) : Part → Notice → String
  | .jobs, .reloaded => m.jobsReloaded
  | .templates, .reloaded => m.templatesReloaded
  | .tableFields, .reloaded => m.tableFieldsReloaded
  | .tableFields, .saved => m.tableFieldsSaved
  | .savedQueries, .reloaded => m.savedQueriesReloaded
  | .savedQueries, .saved => m.savedQuerySaved
  | .savedQueries, .deleted => m.savedQueryDeleted
  | _, _ => ""

end Messages

end LiveDesk
