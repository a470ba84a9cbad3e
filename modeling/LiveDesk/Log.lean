/-!
# Log entries

Every event of the library is written as one line of `key=value` pairs.

- `LogEntry`: a level, what happened, where, and how it went, with details in order.
- `LogEntry.line`: its text.
-/

namespace LiveDesk

/-- How much an entry matters. -/
inductive LogLevel where
  | error
  | warn
  | info
  | debug
  | trace
  deriving DecidableEq, Repr, Inhabited

namespace LogLevel

/-- The name of a level. -/
def name : LogLevel → String
  | .error => "error"
  | .warn => "warn"
  | .info => "info"
  | .debug => "debug"
  | .trace => "trace"

/-- The place of a level among the others, the most important one first. -/
def rank : LogLevel → Nat
  | .error => 0
  | .warn => 1
  | .info => 2
  | .debug => 3
  | .trace => 4

/-- Whether an entry of a level is written by a log that writes up to `limit`. -/
def isWritten (limit level : LogLevel) : Bool :=
  level.rank ≤ limit.rank

/-- All levels. -/
def all : List LogLevel := [.error, .warn, .info, .debug, .trace]

end LogLevel

/-- What is logged about one event. -/
structure LogEntry where
  level : LogLevel
  event : String
  origin : String
  status : String
  details : List (String × String)
  deriving DecidableEq, Repr, Inhabited

namespace LogEntry

/-- The text of an entry. -/
def line (e : LogEntry) : String :=
  let pairs := ("event", e.event) :: ("module", e.origin) :: ("status", e.status) :: e.details
  " ".intercalate (pairs.map fun pair => pair.1 ++ "=" ++ pair.2)

end LogEntry

end LiveDesk
