import LiveDesk.Backend.Failure
import LiveDesk.Log
import LiveDesk.Observable.Store

/-!
# Feature stores

A feature store keeps the state of one part of the desk. Some of its methods edit the state at
once. Others ask a backend: they raise a flag in the state, send a request, and lower the flag again
in whatever way the call ends. While a call is in flight the caller goes on, so calls of one store
overlap freely.

- `Feature`: what a particular feature store does: its edits, the calls it admits, what they send,
  and what becomes of the answers.
- `Session`: the store of a feature with its calls in flight.
- `Session.Move`, `Session.step`, `Session.run`: what the caller can do, and what comes of it.

A call goes through the stages `Stage`: its flag is being raised, it is in flight, it is ending. The
flag is lowered in the same snapshot in which a successful answer is stored.
-/

namespace LiveDesk

open Observable

/-- What the user is told after an explicit reload or a successful mutation. -/
inductive Notice where
  | reloaded
  | saved
  | deleted
  deriving DecidableEq, Repr, Inhabited

/-- An update with the label under which it is logged. -/
structure Publication (S : Type) where
  change : Change S
  label : String

/-- A flag in the state that says that a call is in progress. -/
structure Flag (S : Type) where
  raise : S → S
  lower : S → S
  label : String

/-- What comes of asking for a call. -/
inductive Admission (Call Value Refusal : Type) where
  /-- The call is refused before anything happens. -/
  | refuse (r : Refusal)
  /-- There is nothing to ask; the call has succeeded. -/
  | done (v : Value)
  /-- The call is made. -/
  | proceed (c : Call)

/-- What comes of a successful answer. -/
inductive Settlement (S Value : Type) where
  /-- It is stored. -/
  | store (f : S → S) (label : String) (entry : Option LogEntry) (notice : Option Notice)
      (value : Value)
  /-- It comes too late and is dropped. -/
  | stale (entry : LogEntry) (value : Value)

/-- A feature store as far as it differs from the others. -/
structure Feature where
  /-- Names the store in the log. -/
  name : String
  State : Type
  /-- A method that edits the state at once. -/
  Edit : Type
  /-- A method that asks the backend, with its arguments. -/
  Ask : Type
  /-- What a call carries from its beginning to its end. -/
  Call : Type
  Request : Type
  Payload : Type
  /-- What a successful call returns. -/
  Value : Type
  /-- Why a call is refused. -/
  Refusal : Type
  /-- What an edit publishes; nothing if it is ignored. -/
  edit : Edit → State → Option (Publication State)
  /-- What an edit returns, if it returns anything. -/
  answer : Edit → State → Option Bool
  accept : Ask → State → Admission Call Value Refusal
  /-- What is published before the flag is raised. -/
  prelude : Call → State → Option (Publication State)
  /-- What is logged before the flag is raised. -/
  opening : Call → Option LogEntry
  flag : Call → Flag State
  request : Call → Request
  /-- What becomes of an answer, given the state at that moment; nothing if it is no answer to the
  call. -/
  settle : Call → Payload → State → Option (Settlement State Value)
  /-- What is logged when the backend fails. -/
  failure : Call → FailureKind → Option LogEntry
  /-- The text that describes a refusal. -/
  describe : Refusal → String

/-- Names a call of one session. -/
abbrev CallId := Nat

/-- Why a call did not succeed. -/
inductive CallError (F : Feature) where
  /-- The call was refused before anything happened. -/
  | refused (r : F.Refusal)
  /-- The backend failed. -/
  | failed (c : F.Call) (f : Failure)

namespace CallError

/-- The text that describes an error. A failure of the backend is passed on in its own words. -/
def description {F : Feature} : CallError F → String
  | .refused r => F.describe r
  | .failed _ f => f.description

end CallError

/-- What a call returns. -/
abbrev Answer (F : Feature) := Except (CallError F) F.Value

/-- Where a method goes on when what it publishes has been delivered. -/
inductive Stage (F : Feature) where
  /-- The flag is to be raised. -/
  | raising (id : CallId) (c : F.Call)
  /-- The request is to be sent. -/
  | sending (id : CallId) (c : F.Call)
  /-- The call has succeeded. -/
  | closing (id : CallId) (entry : Option LogEntry) (notice : Option Notice) (value : F.Value)
  /-- The call has ended without storing anything; a cancelled one has no answer. -/
  | leaving (id : CallId) (entry : Option LogEntry) (answer : Option (Answer F))

/-- A feature store with its calls in flight. `V` holds the values of all its projections. -/
structure Session (F : Feature) (V : Type) where
  store : Store F.State V (Stage F)
  calls : List (CallId × F.Call)
  nextCall : CallId

namespace Session

variable {F : Feature} {V : Type}

/-- What the caller can do with a feature store. -/
inductive Move (F : Feature) (V : Type) where
  /-- The library's own next step. -/
  | tick
  /-- Edits the state. -/
  | edit (e : F.Edit)
  /-- Publishes an update of the caller's own. -/
  | publish (p : Publication F.State)
  /-- Asks for a call. -/
  | ask (a : F.Ask)
  /-- The backend answers a call in flight. -/
  | resolve (id : CallId) (reply : Except Failure F.Payload)
  /-- A call in flight is given up. -/
  | cancel (id : CallId)
  /-- Changes who observes what. -/
  | observe (a : Observation F.State V)
  /-- The subscriber's code that runs returns. -/
  | ret
  /-- The code that runs fails. -/
  | panic

/-- What happens in a step. -/
inductive Event (F : Feature) (V : Type) where
  | store (e : Observable.Event F.State V)
  | log (entry : LogEntry)
  /-- A call's request reached the backend. -/
  | sent (id : CallId) (request : F.Request)
  | notified (notice : Notice)
  /-- A call returned. -/
  | answered (id : CallId) (answer : Answer F)

/-- A session whose store has not been updated yet. -/
def opening (initial : F.State) : Session F V where
  store := .opening initial
  calls := []
  nextCall := 0

/-- The current state. -/
def state (s : Session F V) : F.State :=
  s.store.current.state

/-- The entry that is logged when the store of a session is built. -/
def openingEntry (F : Feature) : LogEntry :=
  { level := .debug, event := "store_init", origin := "store", status := "ok",
    details := [("store", F.name)] }

/-- The entry that is logged for an update. -/
def updateEntry (F : Feature) (label : String) (version : Nat) : LogEntry :=
  { level := .debug, event := "state_update", origin := "store", status := "ok",
    details := [("store", F.name), ("label", label), ("version", toString version)] }

/-- An entry that may be missing, as events. -/
def logged (entry : Option LogEntry) : List (Event F V) :=
  entry.toList.map .log

/-- Publishes an update. -/
def publish (s : Session F V) (p : Publication F.State) : Session F V × List (Event F V) :=
  let entry := updateEntry F p.label (s.store.current.version + 1)
  let (store, events) := s.store.change p.change
  ({ s with store }, .log entry :: events.map .store)

/-- Leaves a method's continuation on the stack. -/
def enter (s : Session F V) (stage : Stage F) : Session F V :=
  { s with store := s.store.enter stage }

/-- Raises the flag of a call. -/
def raise (s : Session F V) (id : CallId) (c : F.Call) : Session F V × List (Event F V) :=
  let flag := F.flag c
  let (s, events) := (s.enter (.sending id c)).publish ⟨.update flag.raise, flag.label⟩
  (s, logged (F.opening c) ++ events)

/-- Lowers the flag of a call that stores nothing. -/
def lower (s : Session F V) (id : CallId) (c : F.Call) (entry : Option LogEntry)
    (answer : Option (Answer F)) : Session F V × List (Event F V) :=
  let flag := F.flag c
  (s.enter (.leaving id entry answer)).publish ⟨.update flag.lower, flag.label⟩

/-- Asks for a call. -/
def ask (s : Session F V) (a : F.Ask) : Session F V × List (Event F V) :=
  let id := s.nextCall
  let s := { s with nextCall := id + 1 }
  match F.accept a s.state with
  | .refuse r => (s, [.answered id (.error (.refused r))])
  | .done v => (s, [.answered id (.ok v)])
  | .proceed c =>
    match F.prelude c s.state with
    | some p => (s.enter (.raising id c)).publish p
    | none => s.raise id c

/-- Takes a call out of those in flight. -/
def forget (s : Session F V) (id : CallId) : Session F V :=
  { s with calls := s.calls.filter fun call => call.1 != id }

/-- The call in flight with the given name. -/
def call? (s : Session F V) (id : CallId) : Option F.Call :=
  s.calls.lookup id

/-- The backend answers a call. -/
def resolve (s : Session F V) (id : CallId) (reply : Except Failure F.Payload) :
    Session F V × List (Event F V) :=
  match s.call? id with
  | none => (s, [])
  | some c =>
    match reply with
    | .error f =>
      let (s, events) := (s.forget id).lower id c none (some (.error (.failed c f)))
      (s, logged (F.failure c f.kind) ++ events)
    | .ok payload =>
      match F.settle c payload s.state with
      | none => (s, [])
      | some (.stale entry value) => (s.forget id).lower id c (some entry) (some (.ok value))
      | some (.store f label entry notice value) =>
        ((s.forget id).enter (.closing id entry notice value)).publish
          ⟨.update fun state => (F.flag c).lower (f state), label⟩

/-- A call is given up. -/
def cancel (s : Session F V) (id : CallId) : Session F V × List (Event F V) :=
  match s.call? id with
  | none => (s, [])
  | some c => (s.forget id).lower id c none none

/-- A method goes on. -/
def resume (s : Session F V) : Stage F → Session F V × List (Event F V)
  | .raising id c => s.raise id c
  | .sending id c =>
    ({ s with calls := s.calls ++ [(id, c)] }, [.sent id (F.request c)])
  | .closing id entry notice value =>
    (s, logged entry ++ notice.toList.map .notified ++ [.answered id (.ok value)])
  | .leaving id entry answer =>
    (s, logged entry ++ answer.toList.map (.answered id))

/-- Whether the caller's code has control. -/
def isFree (s : Session F V) : Bool :=
  match s.store.stack with
  | [] | .callback _ :: _ | .replay _ _ :: _ => true
  | _ => false

/-- The library's own next step: the store delivers, or a method goes on. -/
def tick [DecidableEq V] (s : Session F V) : Session F V × List (Event F V) :=
  match s.store.stack with
  | .code stage :: _ => { s with store := s.store.leave }.resume stage
  | _ =>
    let (store, events) := s.store.tick
    ({ s with store }, events.map .store)

/-- Edits the state. -/
def edit (s : Session F V) (e : F.Edit) : Session F V × List (Event F V) :=
  match F.edit e s.state with
  | none => (s, [])
  | some p => s.publish p

/-- A move of the caller's code. -/
def perform (s : Session F V) : Move F V → Session F V × List (Event F V)
  | .tick => (s, [])
  | .edit e => s.edit e
  | .publish p => s.publish p
  | .ask a => s.ask a
  | .resolve id reply => s.resolve id reply
  | .cancel id => s.cancel id
  | .observe a =>
    let (store, events) := s.store.observe a
    ({ s with store }, events.map .store)
  | .ret => ({ s with store := s.store.ret }, [])
  | .panic => ({ s with store := s.store.panic }, [])

/-- One move. The library's own step is made while the caller's code does not have control, every
other move while it has. -/
def step [DecidableEq V] (s : Session F V) (m : Move F V) : Session F V × List (Event F V) :=
  if s.isFree then s.perform m
  else
    match m with
    | .tick => s.tick
    | _ => (s, [])

/-- Any number of moves, with all events in order. -/
def run [DecidableEq V] (s : Session F V) : List (Move F V) → Session F V × List (Event F V)
  | [] => (s, [])
  | m :: ms =>
    let (s, events) := s.step m
    let (s, later) := s.run ms
    (s, events ++ later)

end Session

end LiveDesk
