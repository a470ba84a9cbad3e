import LiveDesk.FileTree
import LiveDesk.Log
import LiveDesk.Text.Blank
import LiveDesk.Text.Line
import LiveDesk.Version

/-!
# The log of a process

A process keeps one log, at one level and in one directory. Starting it again in the same way does
nothing, and starting it in another way is refused.

- `Journal`: the log with the files around it.
- `Journal.start`: starts the log.
- `Journal.write`: writes a line, if the log is kept at its level.
- `Journal.recordPanic`: writes what is known of a failure that nobody handled.
- `Journal.read`: the lines in a directory.
-/

namespace LiveDesk

/-- What is wrong with a directory. -/
inductive DirectoryProblem where
  | blank
  | relative (path : String)
  /-- It is not there and cannot be made. -/
  | unmakable (path : String) (f : FileFault)
  deriving DecidableEq, Repr

/-- How a start differs from the one before. -/
inductive JournalConflict where
  | directory (active refused : String)
  | level (active refused : LogLevel)
  deriving DecidableEq, Repr

/-- Why a log is not started. -/
inductive JournalError where
  | unsupportedLevel (name : String)
  | invalidDirectory (p : DirectoryProblem)
  | conflict (c : JournalConflict)
  deriving DecidableEq, Repr

namespace DirectoryProblem

/-- The text that describes a problem. -/
def description : DirectoryProblem → String
  | .blank => "path must not be empty"
  | .relative path => "path must be absolute, got `" ++ path ++ "`"
  | .unmakable path f => "cannot create `" ++ path ++ "`: " ++ f.description

end DirectoryProblem

namespace JournalConflict

/-- The text that describes a conflict. -/
def description : JournalConflict → String
  | .directory active refused => "running at `" ++ active ++ "`, refusing `" ++ refused ++ "`"
  | .level active refused =>
    "running with level `" ++ active.name ++ "`, refusing `" ++ refused.name ++ "`"

end JournalConflict

namespace JournalError

/-- The text that describes an error. -/
def description : JournalError → String
  | .unsupportedLevel name =>
    "unsupported log level `" ++ name ++ "`; expected trace|debug|info|warn|error"
  | .invalidDirectory p => "invalid log directory: " ++ p.description
  | .conflict c => "logging already initialized: " ++ c.description

end JournalError

/-- Where and how a log is kept. -/
structure JournalSite where
  level : LogLevel
  /-- The path of the directory, as it was given. -/
  directory : String
  deriving DecidableEq, Repr

/-- The log of a process. -/
structure Journal where
  files : FileTree
  /-- None before the first successful start. -/
  site : Option JournalSite
  lines : List (LogLevel × String)
  deriving DecidableEq, Repr

namespace Journal

/-- A log that has not been started. -/
def silent (files : FileTree) : Journal := ⟨files, none, []⟩

/-- The level of the given name, in letters of either case and with blanks around it. -/
def levelOf (name : String) : Except JournalError LogLevel :=
  let name := Text.lowerAscii (Text.trim name)
  match LogLevel.all.find? fun level => level.name = name with
  | some level => .ok level
  | none => if name = "warning" then .ok .warn else .error (.unsupportedLevel name)

/-- The path without blanks around it, if it starts at the root. -/
def pathOf (path : String) : Except JournalError String :=
  let path := Text.trim path
  if path = "" then .error (.invalidDirectory .blank)
  else if Path.isAbsolute path then .ok path
  else .error (.invalidDirectory (.relative path))

/-- Writes a line, if the log is kept at its level. -/
def write (j : Journal) (level : LogLevel) (line : String) : Journal :=
  if j.site.any fun site => site.level.isWritten level then
    { j with lines := j.lines ++ [(level, line)] }
  else j

/-- Writes an entry. -/
def record (j : Journal) (e : LogEntry) : Journal :=
  j.write e.level e.line

/-- What is logged when the log is started. -/
def startEntry (site : JournalSite) : LogEntry :=
  { level := .info, event := "logging_init", origin := "logging", status := "ok",
    details := [("level", site.level.name), ("log_dir", site.directory), ("version", version)] }

/-- How a start differs from the one before, if it does. -/
def conflict? (active site : JournalSite) : Option JournalConflict :=
  if Path.parts active.directory ≠ Path.parts site.directory then
    some (.directory active.directory site.directory)
  else if active.level ≠ site.level then some (.level active.level site.level)
  else none

/-- Starts the log at a site, after making its directory. -/
def startAt (j : Journal) (site : JournalSite) : Journal × Except JournalError Unit :=
  match j.site with
  | some active =>
    match conflict? active site with
    | some c => (j, .error (.conflict c))
    | none => (j, .ok ())
  | none =>
    match j.files.makeAll site.directory with
    | (files, .error f) =>
      ({ j with files }, .error (.invalidDirectory (.unmakable site.directory f)))
    | (files, .ok _) =>
      (({ j with files, site := some site } : Journal).record (startEntry site), .ok ())

/-- Starts the log. -/
def start (j : Journal) (level path : String) : Journal × Except JournalError Unit :=
  match levelOf level with
  | .error e => (j, .error e)
  | .ok level =>
    match pathOf path with
    | .error e => (j, .error e)
    | .ok directory => j.startAt { level, directory }

/-- How many characters of a failure's text are kept. -/
def panicLimit : Nat := 160

/-- What is logged about a failure that nobody handled; its text may be unknown. -/
def panicEntry (place : String) (text : Option String) : LogEntry :=
  { level := .error, event := "panic_captured", origin := "logging", status := "error",
    details := [("location", place),
      ("payload", Text.oneLine panicLimit (text.getD "non-string panic payload"))] }

/-- Writes what is known of a failure that nobody handled. -/
def recordPanic (j : Journal) (place : String) (text : Option String) : Journal :=
  j.record (panicEntry place text)

/-- The lines in a directory, if there is such a directory. -/
def read (j : Journal) (path : String) : Option (List (LogLevel × String)) :=
  (j.files.directory? path).map fun l =>
    if j.site.any fun site => j.files.directory? site.directory = some l then j.lines else []

end Journal

end LiveDesk
