import LiveDesk.Desk.Part

/-!
# Desks

A desk owns its parts from the moment it is opened until it is closed. A part can also be set up on
its own.

- `Desk.get?`, `Desk.put`: the parts by name.
- `Desk.opening`: a desk with all feature stores, from settings that pass their check.
- `noticeEntry`: what is logged when the user is told something.
-/

namespace LiveDesk

/-- The parts that are set up. -/
structure Desk where
  document : Option (Session Document.feature View)
  jobs : Option (Session Jobs.feature View)
  templates : Option (Session Templates.feature View)
  ruleSimulator : Option (Session RuleSimulator.feature View)
  tableFields : Option (Session TableFields.feature View)
  savedQueries : Option (Session SavedQueries.feature View)

namespace Desk

/-- A desk without parts. -/
def empty : Desk := ⟨none, none, none, none, none, none⟩

instance : Inhabited Desk := ⟨empty⟩

/-- The part of the given name. -/
def get? (d : Desk) : (p : Part) → Option (Session p.feature View)
  | .document => d.document
  | .jobs => d.jobs
  | .templates => d.templates
  | .ruleSimulator => d.ruleSimulator
  | .tableFields => d.tableFields
  | .savedQueries => d.savedQueries

/-- The desk with a part in its place. -/
def put (d : Desk) : (p : Part) → Session p.feature View → Desk
  | .document, s => { d with document := some s }
  | .jobs, s => { d with jobs := some s }
  | .templates, s => { d with templates := some s }
  | .ruleSimulator, s => { d with ruleSimulator := some s }
  | .tableFields, s => { d with tableFields := some s }
  | .savedQueries, s => { d with savedQueries := some s }

/-- A desk with one part that has not been updated yet. -/
def single (p : Part) (initial : p.feature.State) : Desk :=
  empty.put p (.opening initial)

/-- The feature stores of a desk, in the order in which they are set up. -/
def featureParts : List Part := [.jobs, .templates, .ruleSimulator, .tableFields, .savedQueries]

/-- What is logged when a desk is opened. -/
def openingEntries (s : Settings) : List LogEntry :=
  featureParts.map (fun p => Session.openingEntry p.feature) ++
    [{ level := .info, event := "context_create", origin := "context", status := "ok",
       details := [("page_size", toString s.pageSize)] }]

/-- What is logged when a desk is closed. -/
def closingEntry : LogEntry :=
  { level := .info, event := "context_dispose", origin := "context", status := "ok",
    details := [] }

/-- A desk with all feature stores, with what is logged. Nothing is set up if the settings do not
pass their check. -/
def opening (s : Settings) : Except SettingsError (Desk × List LogEntry) := do
  let s ← s.validate
  return (
    { document := none
      jobs := some (.opening (.opening s.pageSize))
      templates := some (.opening .opening)
      ruleSimulator := some (.opening .opening)
      tableFields := some (.opening .opening)
      savedQueries := some (.opening .opening) },
    openingEntries s)

end Desk

/-- What is logged when the user is told something. -/
def noticeEntry (text : String) : LogEntry :=
  { level := .info, event := "notify", origin := "backend.notifier", status := "ok",
    details := [("chars", toString text.length)] }

end LiveDesk
