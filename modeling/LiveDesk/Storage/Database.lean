import LiveDesk.Log
import LiveDesk.Storage.Cell

/-!
# Databases and their migrations

A database file keeps the number of its schema. Opening one brings the schema up to date, all
pending migrations in one transaction; a database with a newer schema is left alone.

- `Wording`: what the engine and the reader of documents say in the texts of errors.
- `Database`: the schema number with tables, views and indexes, whose names are told apart without
  regard to case.
- `Statement.run?`: what a statement of a migration does; nothing if the object is there already.
- `Connection`: a database with the transaction that is open on it.
- `Connection.update`: brings the schema up to date, or says why it stays as it is.
- `openAt`: opening a database at a place, with what is logged.
-/

namespace LiveDesk.Storage

/-- What others say in the texts of errors. -/
structure Wording where
  /-- What the engine says of a failure. -/
  engine : String
  /-- What the reader of documents says of one that it cannot read. -/
  document : String

/-- Why the engine did not answer a query. -/
inductive SqlFault where
  /-- The engine refused a statement, or a text that it holds cannot be read. -/
  | engine
  /-- A column holds a value of another type than the one asked for. -/
  | columnType (type : String) (index : Nat) (name : String)
  /-- A column holds a number beyond the type asked for. -/
  | outOfRange (n : Int) (index : Nat)
  deriving DecidableEq, Repr

/-- Where a database is kept. -/
inductive Place where
  | file
  | memory
  deriving DecidableEq, Repr

/-- Why a database cannot be opened or queried. -/
inductive DatabaseError where
  | unopened (place : Place)
  /-- A migration failed, and nothing was changed. -/
  | migration (version : Nat)
  /-- The schema is newer than the newest one known. -/
  | tooNew (found supported : Nat)
  | query (f : SqlFault)
  deriving DecidableEq, Repr

namespace SqlFault

/-- The text that describes a fault. -/
def description (words : Wording) : SqlFault → String
  | .engine => words.engine
  | .columnType type index name =>
    "Invalid column type " ++ type ++ " at index: " ++ toString index ++ ", name: " ++ name
  | .outOfRange n index => "Integer " ++ toString n ++ " out of range at index " ++ toString index

end SqlFault

namespace Place

/-- The name of a place. -/
def name : Place → String
  | .file => "file"
  | .memory => "memory"

end Place

namespace DatabaseError

/-- The text that describes an error. -/
def description (words : Wording) : DatabaseError → String
  | .unopened place =>
    "cannot open saved-query database (" ++ place.name ++ "): " ++
      SqlFault.engine.description words
  | .migration version =>
    "saved-query database migration " ++ toString version ++ " failed: " ++
      SqlFault.engine.description words
  | .tooNew found supported =>
    "saved-query database has schema " ++ toString found ++ ", this build reads up to " ++
      toString supported
  | .query f => "saved-query database query failed: " ++ f.description words

/-- Whether the error has another one behind it. -/
def hasCause : DatabaseError → Bool
  | .tooNew _ _ => false
  | .unopened _ | .migration _ | .query _ => true

end DatabaseError

/-- A table with its rows. -/
structure Table where
  name : String
  columns : List String
  rows : List (List Cell)
  deriving DecidableEq, Repr

/-- A view with the number of rows that it shows. Like a table of rows that are kept elsewhere, it
cannot have an index. -/
structure TableView where
  name : String
  columns : List String
  rowCount : Nat
  deriving DecidableEq, Repr

/-- An index over a table. -/
structure Index where
  name : String
  table : String
  columns : List String
  deriving DecidableEq, Repr

/-- A database. -/
structure Database where
  /-- The number of the schema. -/
  version : Int32
  tables : List Table
  views : List TableView
  indexes : List Index
  deriving DecidableEq, Repr

/-- A statement of a migration. -/
inductive Statement where
  /-- Creates a table, unless it exists. -/
  | createTable (name : String) (columns : List String)
  /-- Creates an index, unless it exists. -/
  | createIndex (name table : String) (columns : List String)
  /-- Sets the number of the schema. -/
  | setVersion (version : Nat)
  deriving DecidableEq, Repr

/-- The statements that lead to a schema. -/
structure Migration where
  version : Nat
  statements : List Statement
  deriving DecidableEq, Repr

namespace Table

/-- Whether a table takes a row: no cell is null, and the first cell, which is the key, is new. -/
def takes (t : Table) (row : List Cell) : Bool :=
  !row.contains .null && !t.rows.any fun other => other.head? == row.head?

end Table

/-- Whether two names name the same object: the case of ASCII letters does not matter. -/
def sameName (a b : String) : Bool :=
  a.toList.map Char.toLower == b.toList.map Char.toLower

/-- The schema number that is kept when a number is set; one beyond 32 bits is taken for zero. -/
def storedVersion (n : Int) : Int32 :=
  if -0x80000000 ≤ n ∧ n < 0x80000000 then Int32.ofInt n else 0

namespace Database

/-- A database without content. -/
def empty : Database := { version := 0, tables := [], views := [], indexes := [] }

instance : Inhabited Database := ⟨empty⟩

/-- The table of the given name. -/
def table? (d : Database) (name : String) : Option Table :=
  d.tables.find? fun t => sameName t.name name

/-- The view of the given name. -/
def view? (d : Database) (name : String) : Option TableView :=
  d.views.find? fun v => sameName v.name name

/-- Whether an index has the given name. -/
def hasIndex (d : Database) (name : String) : Bool :=
  d.indexes.any fun i => sameName i.name name

/-- Whether a table or a view has the given name. -/
def hasRelation (d : Database) (name : String) : Bool :=
  (d.table? name).isSome || (d.view? name).isSome

/-- The number of rows in the table or the view of the given name. -/
def count? (d : Database) (name : String) : Option Nat :=
  ((d.table? name).map (·.rows.length)).or ((d.view? name).map (·.rowCount))

/-- The database with an empty table, if its name is free. -/
def addTable (d : Database) (name : String) (columns : List String) : Database :=
  if d.hasRelation name then d
  else { d with tables := d.tables ++ [{ name, columns, rows := [] }] }

/-- The database with a row at the end of a table, if the table takes it. -/
def addRow (d : Database) (name : String) (row : List Cell) : Database :=
  { d with
    tables := d.tables.map fun t =>
      if sameName t.name name ∧ t.takes row then { t with rows := t.rows ++ [row] } else t }

/-- The names of all objects with their kinds, in order. -/
def objects (d : Database) : List String :=
  (d.indexes.map (fun i => "index " ++ i.name) ++ d.tables.map (fun t => "table " ++ t.name) ++
    d.views.map (fun v => "view " ++ v.name)).mergeSort fun a b => a ≤ b

end Database

namespace Statement

/-- The database after a statement, unless the engine refuses it. -/
def run? (d : Database) : Statement → Option Database
  | .createTable name columns =>
    if d.hasRelation name then some d
    else if d.hasIndex name then none
    else some (d.addTable name columns)
  | .createIndex name table columns =>
    match d.table? table with
    | none => none
    | some t =>
      if d.hasRelation name then none
      else if d.hasIndex name then some d
      else if columns.all fun column => t.columns.any (sameName column) then
        some { d with indexes := d.indexes ++ [{ name, table, columns }] }
      else none
  | .setVersion version => some { d with version := storedVersion version }

end Statement

/-- The table of saved queries. -/
def savedQueriesTable : String := "saved_queries"

/-- Its columns. -/
def savedQueriesColumns : List String := ["uuid", "name", "spec_json", "created_at", "updated_at"]

/-- The index by age. -/
def savedQueriesIndex : String := "idx_saved_queries_updated"

/-- All migrations in the order of their versions. -/
def migrations : List Migration :=
  [{ version := 1, statements := [.createTable savedQueriesTable savedQueriesColumns] },
    { version := 2,
      statements := [.createIndex savedQueriesIndex savedQueriesTable ["updated_at", "uuid"]] }]

/-- The newest schema known. -/
def latestVersion : Nat :=
  (migrations.getLast?.map (·.version)).getD 0

/-- What is executed for a migration: its statements, and one that sets the number of the schema. -/
def Migration.script (m : Migration) : List Statement :=
  m.statements ++ [.setVersion m.version]

/-- What is logged when the schema was brought up to date. -/
def migratedEntry (version : Nat) : LogEntry :=
  { level := .info, event := "db_migrate", origin := "db", status := "ok",
    details := [("from", toString version), ("to", toString latestVersion)] }

/-! ## Transactions -/

/-- A database with the transaction that is open on it. The statements of a transaction work on a
copy, which takes the place of the database when the transaction is committed and is dropped when it
is rolled back. -/
structure Connection where
  stored : Database
  /-- The database as the statements of the open transaction have left it. -/
  working : Option Database
  deriving DecidableEq, Repr

namespace Connection

/-- A connection without a transaction. -/
def idle (d : Database) : Connection := ⟨d, none⟩

/-- The database as the connection shows it. -/
def shown (c : Connection) : Database :=
  c.working.getD c.stored

/-- Opens a transaction; there cannot be two. -/
def begin? (c : Connection) : Option Connection :=
  match c.working with
  | none => some { c with working := some c.stored }
  | some _ => none

/-- Executes a statement, unless the engine refuses it. Without a transaction it is final. -/
def execute? (c : Connection) (s : Statement) : Option Connection :=
  (s.run? c.shown).map fun d =>
    match c.working with
    | none => { c with stored := d }
    | some _ => { c with working := some d }

/-- Makes what the transaction has done final. -/
def commit (c : Connection) : Connection :=
  { stored := c.shown, working := none }

/-- Gives the transaction up. -/
def rollback (c : Connection) : Connection :=
  { c with working := none }

/-- Executes statements up to the first one that is refused; also says whether there is none. What
was executed before stays. -/
def executeAll (c : Connection) : List Statement → Connection × Bool
  | [] => (c, true)
  | s :: rest =>
    match c.execute? s with
    | none => (c, false)
    | some c => c.executeAll rest

/-- Executes migrations up to the first one with a refused statement, and says which one that is. -/
def runAll (c : Connection) : List Migration → Connection × Except DatabaseError Unit
  | [] => (c, .ok ())
  | m :: rest =>
    match c.executeAll m.script with
    | (c, false) => (c, .error (.migration m.version))
    | (c, true) => c.runAll rest

/-- Brings the schema up to date. The pending migrations are executed in one transaction, which is
rolled back if one of them fails. -/
def update (c : Connection) : Connection × Except DatabaseError Unit × List LogEntry :=
  let version := c.shown.version.toInt
  if version < 0 ∨ 0x100000000 ≤ version then (c, .error (.query (.outOfRange version 0)), [])
  else
    let current := version.toNat
    if latestVersion < current then (c, .error (.tooNew current latestVersion), [])
    else if current = latestVersion then (c, .ok (), [])
    else
      match c.begin? with
      | none => (c, .error (.query .engine), [])
      | some c =>
        match c.runAll (migrations.filter fun m => current < m.version) with
        | (c, .error e) => (c.rollback, .error e, [])
        | (c, .ok ()) => (c.commit, .ok (), [migratedEntry current])

end Connection

/-- The database after an attempt to bring its schema up to date, with what is logged. -/
def attempt (d : Database) : Database × Except DatabaseError Unit × List LogEntry :=
  let (c, outcome, entries) := (Connection.idle d).update
  (c.stored, outcome, entries)

/-- The database with its schema up to date, unless that fails. -/
def migrate (d : Database) : Except DatabaseError (Database × List LogEntry) :=
  match attempt d with
  | (_, .error e, _) => .error e
  | (d, .ok (), entries) => .ok (d, entries)

/-- The entries of opening in the log. Durations are not recorded. -/
def openEntry (level : LogLevel) (status : String) (place : Place)
    (details : List (String × String)) : LogEntry :=
  { level, event := "db_open", origin := "db", status, details := ("mode", place.name) :: details }

/-- Brackets what is logged while a database is opened. -/
def openingLog (words : Wording) (place : Place) (outcome : Except DatabaseError Unit)
    (entries : List LogEntry) : List LogEntry :=
  openEntry .info "start" place [] :: entries ++
    [match outcome with
      | .ok _ => openEntry .info "ok" place [("duration_ms", "_")]
      | .error e =>
        openEntry .error "error" place
          [("duration_ms", "_"), ("error", e.description words)]]

/-- Opens a database that the engine can read. -/
def openAt (words : Wording) (place : Place) (d : Database) :
    Database × Except DatabaseError Unit × List LogEntry :=
  let (d, outcome, entries) := attempt d
  (d, outcome, openingLog words place outcome entries)

/-- Fails to open a database. -/
def refuseAt (words : Wording) (place : Place) (e : DatabaseError) :
    Except DatabaseError Unit × List LogEntry :=
  (.error e, openingLog words place (.error e) [])

/-- The database that the engine makes of a file with arbitrary content: a file of at most one byte
is a new database, another one is refused at the first query. -/
def ofContent (content : String) : Except DatabaseError Database :=
  if content.utf8ByteSize ≤ 1 then .ok .empty else .error (.query .engine)

end LiveDesk.Storage
