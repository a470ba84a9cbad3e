import LiveDesk.Feature.SavedQueries
import LiveDesk.Storage.Repository

/-!
# The repository as a backend

The store of saved queries asks a backend; a repository can be that backend.

- `Repository.serve`: the answer to a request, with the repository after it and what is logged.
- `Repository.served`: an outcome of the repository as a backend passes it on.
-/

namespace LiveDesk.Storage.Repository

/-- An outcome as a backend passes it on: an error becomes a failure, and is logged. -/
def served {α : Type} (words : Wording) (outcome : Except RepositoryError α) :
    Except Failure α × List LogEntry :=
  match outcome with
  | .ok a => (.ok a, [])
  | .error e => (.error (e.failure words), [e.entry words])

/-- The repository after a request, with the outcome. A query that is created gets the given
identifier and time. -/
def respond (r : Repository) (id : Uuid) (time : Int64) :
    SavedQueries.Request → Repository × Except RepositoryError SavedQueries.Payload
  | .list => (r, .listed <$> r.list)
  | .create name spec =>
    match r.create id time name spec with
    | .ok (r, query) => (r, .ok (.created query))
    | .error e => (r, .error e)
  | .delete id =>
    match r.delete id with
    | .ok r => (r, .ok .deleted)
    | .error e => (r, .error e)

/-- Answers a request. -/
def serve (r : Repository) (words : Wording) (id : Uuid) (time : Int64)
    (request : SavedQueries.Request) :
    Repository × Except Failure SavedQueries.Payload × List LogEntry :=
  let (r, outcome) := r.respond id time request
  (r, served words outcome)

end LiveDesk.Storage.Repository
