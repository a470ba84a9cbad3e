import LiveDesk.Backend.Failure
import LiveDesk.Record.SavedQuery
import LiveDesk.Storage.Database

/-!
# The repository of saved queries

Saved queries are kept in a table, with their specs as JSON texts.

- `Row`: a row of the table, with whatever other programs have put into it.
- `Row.query`: the saved query in a row, or the first thing that is wrong with it.
- `Repository.list`, `get`, `create`, `delete`: the operations. A list is ordered by age, newest
  first, and by identifier; the first row that cannot be read is an error.
-/

namespace LiveDesk.Storage

/-- A row of the table of saved queries. -/
structure Row where
  uuid : Cell
  name : Cell
  spec : Cell
  updatedAt : Cell
  deriving DecidableEq, Repr

/-- What is wrong with stored data. -/
inductive DataProblem where
  | identifier (text : String)
  | spec (id : Uuid)
  | other (message : String)
  deriving DecidableEq, Repr

/-- Why the repository did not answer. -/
inductive RepositoryError where
  | database (e : DatabaseError)
  | notFound (id : Uuid)
  | invalidData (p : DataProblem)
  deriving DecidableEq, Repr

namespace DataProblem

/-- The text that describes a problem. -/
def description (words : Wording) : DataProblem → String
  | .identifier text => "invalid uuid `" ++ text ++ "` in saved_queries.uuid"
  | .spec id => "invalid spec_json for saved query " ++ id.text ++ ": " ++ words.document
  | .other message => message

end DataProblem

namespace RepositoryError

/-- The text that describes an error. -/
def description (words : Wording) : RepositoryError → String
  | .database e => e.description words
  | .notFound id => "saved query not found: " ++ id.text
  | .invalidData p => "invalid persisted saved query: " ++ p.description words

/-- Whether the error has another one behind it. -/
def hasCause : RepositoryError → Bool
  | .database _ => true
  | .notFound _ | .invalidData _ => false

/-- The error as a failure of the backend that the repository is. -/
def failure (words : Wording) : RepositoryError → Failure
  | .notFound id => ⟨.notFound, "saved query " ++ id.text⟩
  | e => ⟨.transport, e.description words⟩

/-- What is logged when the repository fails as a backend. -/
def entry (words : Wording) (e : RepositoryError) : LogEntry :=
  { level := .warn, event := "saved_query_repo", origin := "repo", status := "error",
    details := [("error", e.description words)] }

end RepositoryError

namespace Row

/-- The row as its columns keep it. -/
def kept (r : Row) : Row :=
  { uuid := r.uuid.asText, name := r.name.asText, spec := r.spec.asText,
    updatedAt := r.updatedAt.asInteger }

/-- Whether a cell has nothing in it. -/
def hasNull (r : Row) : Bool :=
  r.uuid == .null || r.name == .null || r.spec == .null || r.updatedAt == .null

/-- The row of a saved query. -/
def ofQuery (query : SavedQuery) : Row :=
  { uuid := .text query.id.text
    name := .text query.name
    spec := .text query.spec.toJson.render
    updatedAt := .int query.updatedAt }

/-- The text in a cell. -/
def textOf (c : Cell) (index : Nat) (column : String) : Except RepositoryError String :=
  match c with
  | .text s => .ok s
  | .garbled _ => .error (.database (.query .engine))
  | c => .error (.database (.query (.columnType c.typeName index column)))

/-- The whole number in a cell. -/
def integerOf (c : Cell) (index : Nat) (column : String) : Except RepositoryError Int64 :=
  match c with
  | .int n => .ok n
  | c => .error (.database (.query (.columnType c.typeName index column)))

/-- The identifier that a text is. -/
def identifierOf (text : String) : Except RepositoryError Uuid :=
  match Uuid.parse? text with
  | some id => .ok id
  | none => .error (.invalidData (.identifier text))

/-- The spec that a text is. -/
def specOf (id : Uuid) (text : String) : Except RepositoryError QuerySpec :=
  match Json.document QuerySpec.read text with
  | .ok spec => .ok spec
  | .error _ => .error (.invalidData (.spec id))

/-- The saved query in a row. -/
def query (r : Row) : Except RepositoryError SavedQuery := do
  let id ← identifierOf (← textOf r.uuid 0 "uuid")
  let spec ← specOf id (← textOf r.spec 2 "spec_json")
  let name ← textOf r.name 1 "name"
  let updatedAt ← integerOf r.updatedAt 3 "updated_at"
  return { id, name, spec, updatedAt }

/-- Whether a row comes before another one in a list: the newer one first, then by identifier. -/
def isBefore (a b : Row) : Bool :=
  ((b.updatedAt.compare a.updatedAt).then (a.uuid.compare b.uuid)).isLE

end Row

/-- The table of saved queries; none if the table is missing. -/
structure Repository where
  rows? : Option (List Row)
  deriving DecidableEq, Repr

namespace Repository

/-- The repository over a new table. -/
def empty : Repository := ⟨some []⟩

instance : Inhabited Repository := ⟨empty⟩

/-- The rows, if the engine finds the table. -/
def rows (r : Repository) : Except RepositoryError (List Row) :=
  match r.rows? with
  | some rows => .ok rows
  | none => .error (.database (.query .engine))

/-- All saved queries, newest first. -/
def list (r : Repository) : Except RepositoryError (List SavedQuery) := do
  ((← r.rows).mergeSort Row.isBefore).mapM Row.query

/-- The row with the written form of an identifier. -/
def row? (id : Uuid) (rows : List Row) : Option Row :=
  rows.find? fun row => row.uuid = .text id.text

/-- The saved query with the given identifier, if there is one. -/
def get (r : Repository) (id : Uuid) : Except RepositoryError (Option SavedQuery) := do
  match row? id (← r.rows) with
  | none => return none
  | some row => return some (← row.query)

/-- Adds a row as it is kept; none if a cell is null or the identifier is there already. -/
def insert? (row : Row) (rows : List Row) : Option (List Row) :=
  let row := row.kept
  if row.hasNull || rows.any (fun other => other.uuid == row.uuid) then none
  else some (rows ++ [row])

/-- Saves a query under an identifier that is not in use. -/
def create (r : Repository) (id : Uuid) (time : Int64) (name : String) (spec : QuerySpec) :
    Except RepositoryError (Repository × SavedQuery) := do
  match insert? (.ofQuery { id, name, spec, updatedAt := time }) (← r.rows) with
  | none => .error (.database (.query .engine))
  | some rows =>
    let r : Repository := ⟨some rows⟩
    match ← r.get id with
    | some query => return (r, query)
    | none =>
      .error (.invalidData (.other ("saved query " ++ id.text ++ " missing after insert")))

/-- Deletes the saved query with the given identifier. -/
def delete (r : Repository) (id : Uuid) : Except RepositoryError Repository := do
  let rows ← r.rows
  match row? id rows with
  | none => .error (.notFound id)
  | some _ => return ⟨some (rows.filter fun row => row.uuid ≠ .text id.text)⟩

/-! ## Other programs at the table -/

/-- Puts a row in directly. -/
def insert (r : Repository) (row : Row) : Option Repository := do
  return ⟨some (← insert? row (← r.rows?))⟩

/-- Sets the time of the row whose identifier is written as given; also counts the rows changed. -/
def touch (r : Repository) (text : String) (time : Int64) : Repository × Nat :=
  match r.rows? with
  | none => (r, 0)
  | some rows =>
    (⟨some (rows.map fun row =>
        if row.uuid = .text text then { row with updatedAt := .int time } else row)⟩,
      rows.countP fun row => row.uuid = .text text)

/-- Takes the table away. -/
def dropTable (_ : Repository) : Repository := ⟨none⟩

end Repository

end LiveDesk.Storage
