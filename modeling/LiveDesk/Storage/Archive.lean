import LiveDesk.Storage.Service

/-!
# The saved queries over a repository

A repository answers at once: from the moment a request reaches it until its answer is stored no
other code runs. So asking it and going on with the call is one step of the saved queries.

- `Draw`: what a query gets from outside when it is created.
- `Archive`: the saved queries with the repository that answers them.
- `Archive.step`, `Archive.run`: what the caller can do with them, and what comes of it.
-/

namespace LiveDesk.Storage

/-- What a query gets from outside when it is created. -/
structure Draw where
  id : Uuid
  /-- What the clock says, in milliseconds since 1970. -/
  time : Int64

/-- The saved queries with the repository that answers them. -/
structure Archive (V : Type) where
  session : Session SavedQueries.feature V
  repository : Repository
  words : Wording
  /-- How many queries the repository has created. -/
  created : Nat

namespace Archive

variable {V : Type}

/-- No query has been loaded yet. -/
def opening (r : Repository) (words : Wording) : Archive V :=
  ⟨.opening .opening, r, words, 0⟩

/-- The request that reached the repository, with the call that sent it. -/
def request? (events : List (Session.Event SavedQueries.feature V)) :
    Option (CallId × SavedQueries.Request) :=
  events.findSome? fun
    | .sent id request => some (id, request)
    | .store _ | .log _ | .notified _ | .answered _ _ => none

/-- The number of queries created after an answer. -/
def creations (n : Nat) : Except Failure SavedQueries.Payload → Nat
  | .ok (.created _) => n + 1
  | .ok (.listed _) | .ok .deleted | .error _ => n

/-- The repository answers a request, and the call goes on. -/
def answer (x : Archive V) (draw : Draw) (id : CallId) (request : SavedQueries.Request) :
    Archive V × List (Session.Event SavedQueries.feature V) :=
  let (repository, reply, entries) := x.repository.serve x.words draw.id draw.time request
  let (session, events) := x.session.resolve id reply
  ({ x with session, repository, created := creations x.created reply }, entries.map .log ++ events)

/-- One move. The n-th query that is created gets the n-th of the given draws. -/
def step [DecidableEq V] (x : Archive V) (draws : Nat → Draw)
    (m : Session.Move SavedQueries.feature V) :
    Archive V × List (Session.Event SavedQueries.feature V) :=
  let (session, events) := x.session.step m
  let x := { x with session }
  match request? events with
  | none => (x, events)
  | some (id, request) =>
    let (x, later) := x.answer (draws x.created) id request
    (x, events ++ later)

/-- Any number of moves, with all events in order. -/
def run [DecidableEq V] (x : Archive V) (draws : Nat → Draw) :
    List (Session.Move SavedQueries.feature V) →
      Archive V × List (Session.Event SavedQueries.feature V)
  | [] => (x, [])
  | m :: ms =>
    let (x, events) := x.step draws m
    let (x, later) := x.run draws ms
    (x, events ++ later)

end Archive

end LiveDesk.Storage
