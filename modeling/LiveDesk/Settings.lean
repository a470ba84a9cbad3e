import LiveDesk.Feature.Session
import LiveDesk.Json.Scalar
import LiveDesk.Text.Blank

/-!
# Settings of a desk

The page size, the log level, and the texts of the notices. Every setting has a default.

- `Settings.default`: the defaults, which depend on the build.
- `Settings.check`: what is wrong with settings, if anything.
- `Settings.parse`: settings from a document; missing ones take their defaults.
-/

namespace LiveDesk

/-- The texts of the notices. -/
structure Messages where
  jobsReloaded : String
  templatesReloaded : String
  tableFieldsReloaded : String
  tableFieldsSaved : String
  savedQueriesReloaded : String
  savedQuerySaved : String
  savedQueryDeleted : String
  deriving DecidableEq, Repr

/-- How the program was built. -/
inductive Build where
  | debug
  | release
  deriving DecidableEq, Repr

/-- The settings of a desk. -/
structure Settings where
  /-- The page size of paginated lists until a filter says otherwise. -/
  pageSize : UInt32
  messages : Messages
  logLevel : String
  deriving DecidableEq, Repr

/-- What can be wrong with settings. -/
inductive SettingsProblem where
  | pageSizeZero
  | logLevelBlank
  deriving DecidableEq, Repr

/-- Why settings cannot be used. -/
inductive SettingsError where
  /-- The document cannot be read. -/
  | unreadable (f : Json.Fault)
  | invalid (p : SettingsProblem)
  deriving DecidableEq, Repr

namespace SettingsProblem

/-- The text that describes a problem. -/
def description : SettingsProblem → String
  | .pageSizeZero => "invalid config value: default_page_size must be greater than zero"
  | .logLevelBlank => "invalid config value: log_level must not be blank"

end SettingsProblem

namespace Messages

/-- The texts that are used when none are given. -/
def default : Messages where
  jobsReloaded := "Jobs reloaded"
  templatesReloaded := "Templates reloaded"
  tableFieldsReloaded := "Table fields reloaded"
  tableFieldsSaved := "Table fields saved"
  savedQueriesReloaded := "Saved queries reloaded"
  savedQuerySaved := "Query saved"
  savedQueryDeleted := "Query deleted"

instance : Inhabited Messages := ⟨default⟩

open Json Json.Reader

/-- The fields of the texts in documents. -/
def fields : Fields [String, String, String, String, String, String, String] :=
  (defaulted "jobs_reloaded" text default.jobsReloaded,
    defaulted "templates_reloaded" text default.templatesReloaded,
    defaulted "table_fields_reloaded" text default.tableFieldsReloaded,
    defaulted "table_fields_saved" text default.tableFieldsSaved,
    defaulted "saved_queries_reloaded" text default.savedQueriesReloaded,
    defaulted "saved_query_saved" text default.savedQuerySaved,
    defaulted "saved_query_deleted" text default.savedQueryDeleted, ())

/-- Reads the texts. -/
def read : Reader Messages := do
  let (jobsReloaded, templatesReloaded, tableFieldsReloaded, tableFieldsSaved,
    savedQueriesReloaded, savedQuerySaved, savedQueryDeleted, _) ← record fields
  return ⟨jobsReloaded, templatesReloaded, tableFieldsReloaded, tableFieldsSaved,
    savedQueriesReloaded, savedQuerySaved, savedQueryDeleted⟩

/-- The texts as a value. -/
def toJson (m : Messages) : Json :=
  .record [("jobs_reloaded", .text m.jobsReloaded),
    ("templates_reloaded", .text m.templatesReloaded),
    ("table_fields_reloaded", .text m.tableFieldsReloaded),
    ("table_fields_saved", .text m.tableFieldsSaved),
    ("saved_queries_reloaded", .text m.savedQueriesReloaded),
    ("saved_query_saved", .text m.savedQuerySaved),
    ("saved_query_deleted", .text m.savedQueryDeleted)]

end Messages

/-- The log level that is used when none is given. -/
def Build.logLevel : Build → String
  | .debug => "debug"
  | .release => "info"

namespace Settings

/-- The settings that are used when none are given. -/
def default (b : Build) : Settings where
  pageSize := 25
  messages := .default
  logLevel := b.logLevel

instance : Inhabited Settings := ⟨default .debug⟩

open Json Json.Reader

/-- The fields of settings in documents. -/
def fields (b : Build) : Fields [UInt32, Messages, String] :=
  (defaulted "default_page_size" (integer toUInt32?) (default b).pageSize,
    defaulted "messages" Messages.read (default b).messages,
    defaulted "log_level" text (default b).logLevel, ())

/-- Reads settings without checking them. -/
def read (b : Build) : Reader Settings := do
  let (pageSize, messages, logLevel, _) ← record (fields b)
  return { pageSize, messages, logLevel }

/-- What is wrong with settings, if anything. -/
def check (s : Settings) : Option SettingsProblem :=
  if s.pageSize = 0 then some .pageSizeZero
  else if Text.allBlank s.logLevel then some .logLevelBlank
  else none

/-- Settings that can be used. -/
def validate (s : Settings) : Except SettingsError Settings :=
  match s.check with
  | some p => .error (.invalid p)
  | none => .ok s

/-- Settings from a document. -/
def parse (b : Build) (document : String) : Except SettingsError Settings :=
  match Json.document (read b) document with
  | .error f => .error (.unreadable f)
  | .ok s => s.validate

/-- The settings as a value. -/
def toJson (s : Settings) : Json :=
  .record [("default_page_size", .ofNat s.pageSize.toNat), ("log_level", .text s.logLevel),
    ("messages", s.messages.toJson)]

end Settings

end LiveDesk
