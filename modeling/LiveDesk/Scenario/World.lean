import LiveDesk.Scenario.Step
import LiveDesk.Storage.Archive

/-!
# What a scenario runs in

- `World`: the desk with the names that the scenario has given, the calls it has seen, and what is
  still to be done.
- `Task`: what is still to be done. The top task is done while every part of the desk waits for the
  caller's code.
- `World.move`: a move of one part, with what follows from its events.
-/

namespace LiveDesk.Scenario

open Observable Storage

/-- Things by name, each name at most once. -/
abbrev Names (α : Type) := List (String × α)

namespace Names

variable {α : Type}

/-- The table without a name. -/
def without (table : Names α) (name : String) : Names α :=
  table.filter fun entry => entry.1 != name

/-- The table with a thing under a name, in place of the one that was there. -/
def put (table : Names α) (name : String) (a : α) : Names α :=
  (name, a) :: without table name

/-- The thing of the given name. -/
def get? (table : Names α) (name : String) : Option α :=
  table.lookup name

end Names

/-- A projection of some part. -/
structure ProjectionName where
  part : Part
  id : ProjectionId
  deriving DecidableEq

/-- A subscription to some part or to a projection of it. -/
structure SubscriptionName where
  part : Part
  id : ObserverId
  deriving DecidableEq

/-- A subscriber's code: rules, each with how often it has fired. -/
structure Subscriber where
  subscription : SubscriptionName
  name : String
  rules : List (Rule Step × Nat)

/-- A request that reached a backend, with the number it got. -/
structure SentRequest where
  number : Nat
  part : Part
  call : CallId

/-- A call that has returned. -/
structure Returned where
  part : Part
  call : CallId
  answer : Answer part.feature

/-- How a step goes on when everything that it set off is over. -/
inductive After where
  | give (o : Outcome)
  /-- Gives what the call returned. A call that is still in flight is answered now if there is a
  reply. -/
  | await (p : Part) (id : CallId) (reply : Option Reply)
  /-- Gives the new subscription its name. -/
  | name (name : String) (subscription : SubscriptionName)
  /-- Gives the new guard its name. -/
  | guarded (name : String) (id : CallId)
  /-- Lets a guard go and fails. -/
  | fall (id : CallId)
  | panic

/-- Who takes a step: the scenario itself, or a subscriber's code, with the step's word. -/
abbrev Taker := Option (String × String)

/-- What is still to be done. -/
inductive Task where
  /-- A subscriber's code goes through its rules from a place on. -/
  | rules (subscription : SubscriptionName) (value : Json) (place : Nat)
  /-- A subscriber's code takes steps. -/
  | steps (name : String) (steps : List Step)
  /-- A step comes to its end. -/
  | finish (who : Taker) (after : After)
  | move (p : Part) (m : Session.Move p.feature View)

/-- What a scenario runs in. -/
structure World where
  desk : Desk
  settings : Settings
  isClosed : Bool
  /-- The backend of the saved queries, if it is a repository. -/
  repository : Option Repository
  /-- What the engine below it says. -/
  words : Wording
  /-- How many saved queries the repository has created. -/
  created : Nat
  projections : Names ProjectionName
  subscriptions : Names SubscriptionName
  guards : Names CallId
  held : Names Json
  subscribers : List Subscriber
  /-- Under which names selectors were made that are counted. -/
  selectors : List (ProjectionName × String)
  /-- How often they were called. -/
  calls : Names Nat
  requests : List SentRequest
  returned : List Returned
  messages : List String
  tasks : List Task
  /-- What the current step has shown, last first. -/
  events : List Event
  /-- What the current step has returned. -/
  outcome : Option Outcome

namespace World

/-- The world at the beginning of a scenario. -/
def opening (desk : Desk) (settings : Settings) (repository : Option Repository)
    (words : Wording) : World where
  desk := desk
  settings := settings
  isClosed := false
  repository := repository
  words := words
  created := 0
  projections := []
  subscriptions := []
  guards := []
  held := []
  subscribers := []
  selectors := []
  calls := []
  requests := []
  returned := []
  messages := []
  tasks := []
  events := []
  outcome := none

instance : Inhabited World := ⟨opening .empty (.default .debug) none ⟨"", ""⟩⟩

/-- Shows an event. -/
def emit (w : World) (e : Event) : World :=
  { w with events := e :: w.events }

/-- Puts a task before the others. -/
def push (w : World) (t : Task) : World :=
  { w with tasks := t :: w.tasks }

/-- Lets a step come to its end when everything pushed later is over. -/
def later (w : World) (who : Taker) (after : After) : World :=
  w.push (.finish who after)

/-! ## What follows from events -/

/-- The subscriber of a subscription. -/
def subscriber? (w : World) (s : SubscriptionName) : Option Subscriber :=
  w.subscribers.find? fun x => x.subscription = s

/-- A subscriber's code is called: it goes through its rules and returns. -/
def call (w : World) (s : SubscriptionName) (value : Json) : World :=
  match w.subscriber? s with
  | none => w.push (.move s.part .ret)
  | some x =>
    ((w.emit (.called x.name value)).push (.move s.part .ret)).push (.rules s value 0)

/-- Counts a call of a selector, if it was made under a name. -/
def count (w : World) (p : ProjectionName) : World :=
  match w.selectors.lookup p with
  | none => w
  | some name => { w with calls := w.calls.put name ((w.calls.get? name).getD 0 + 1) }

/-- Numbers a request that reached a backend of the scenario. -/
def register (w : World) (p : Part) (id : CallId) (r : p.feature.Request) : World :=
  let number := w.requests.length + 1
  let request : SentRequest := { number, part := p, call := id }
  let w := { w with requests := w.requests ++ [request] }
  w.emit (.requested (some number) p r)

/-- The identifier that the repository gives to the n-th query it creates. -/
def identifier (n : Nat) : Uuid :=
  .ofNat (0x40008000000000000000 + n)

/-- The time of the n-th query that the repository creates. -/
def creationTime (n : Nat) : Int64 :=
  .ofNat (1000 * n)

/-- What the n-th query gets that the repository creates, counted from zero. -/
def draw (n : Nat) : Draw :=
  ⟨identifier (n + 1), creationTime (n + 1)⟩

/-- A request reached a backend. Guards of a document ask nobody, and a repository answers without a
number. -/
def sent (w : World) : (p : Part) → CallId → p.feature.Request → World
  | .document, _, _ => w
  | .savedQueries, id, r =>
    match w.repository with
    | some _ => w.emit (.requested none .savedQueries r)
    | none => w.register .savedQueries id r
  | .jobs, id, r => w.register .jobs id r
  | .templates, id, r => w.register .templates id r
  | .ruleSimulator, id, r => w.register .ruleSimulator id r
  | .tableFields, id, r => w.register .tableFields id r

/-- The user is told something. -/
def notify (w : World) (text : String) : World :=
  let w := (w.emit (.notified text)).emit (.logged (noticeEntry text))
  { w with messages := w.messages ++ [text] }

/-- What follows from an event of a part. -/
def note (p : Part) (w : World) : Session.Event p.feature View → World
  | .store (.called o signal) => w.call ⟨p, o⟩ (p.shown signal)
  | .store (.evaluated q _ _) => w.count ⟨p, q⟩
  | .store (.published _) | .store (.emitted _ _) => w
  | .log e => w.emit (.logged e)
  | .sent id r => w.sent p id r
  | .notified notice => w.notify (w.settings.messages.text p notice)
  | .answered id answer => { w with returned := ⟨p, id, answer⟩ :: w.returned }

/-- A move of one part, with its events. -/
def take (w : World) : (p : Part) → Session p.feature View → Session.Move p.feature View →
    World × List (Session.Event p.feature View)
  | .savedQueries, s, m =>
    match w.repository with
    | none =>
      let (s, events) := s.step m
      ({ w with desk := w.desk.put .savedQueries s }, events)
    | some repository =>
      let (x, events) := (Archive.mk s repository w.words w.created).step draw m
      ({ w with
          desk := w.desk.put .savedQueries x.session
          repository := some x.repository
          created := x.created }, events)
  | p, s, m =>
    let (s, events) := s.step m
    ({ w with desk := w.desk.put p s }, events)

/-- A move of one part, with what follows from its events. -/
def move (w : World) (p : Part) (m : Session.Move p.feature View) : World :=
  match w.desk.get? p with
  | none => w
  | some s =>
    let (w, events) := w.take p s m
    events.foldl (note p) w

/-- Changes who observes what of a part. -/
def observe (w : World) (p : Part) (a : Observation p.feature.State View) : World :=
  w.move p (.observe a)

/-! ## Names -/

/-- Gives a projection a name; a handle that had the name is given up. -/
def nameProjection (w : World) (name : String) (q : ProjectionName) : World :=
  let old := w.projections.get? name
  let w := { w with projections := w.projections.put name q }
  match old with
  | none => w
  | some q => w.observe q.part (.drop q.id)

/-- Gives a subscription a name; one that had the name is ended. -/
def nameSubscription (w : World) (name : String) (s : SubscriptionName) : World :=
  let old := w.subscriptions.get? name
  let w := { w with subscriptions := w.subscriptions.put name s }
  match old with
  | none => w
  | some s => w.observe s.part (.unsubscribe s.id)

/-- Adds the code of a subscription. -/
def subscribe (w : World) (s : SubscriptionName) (name : String) (rules : List (Rule Step)) :
    World :=
  { w with subscribers := ⟨s, name, rules.map fun rule => (rule, 0)⟩ :: w.subscribers }

/-! ## Calls -/

/-- The requests in flight, in the order of their numbers. -/
def inFlight (w : World) : List SentRequest :=
  w.requests.filter fun r => (w.desk.get? r.part).any fun s => (s.call? r.call).isSome

/-- The request in flight that a name means. -/
def find? (w : World) : CallName → Option SentRequest
  | .number n => w.inFlight.find? fun r => r.number = n
  | .oldest => w.inFlight.head?
  | .newest => w.inFlight.getLast?

/-- What a call returned. -/
def answer? (w : World) (p : Part) (id : CallId) : Option Outcome :=
  (w.returned.find? fun r => r.part = p && r.call = id).map fun r => .answered r.part r.answer

/-- A backend of the scenario answers a call. A document that is no answer to the call leaves it in
flight. -/
def answer (w : World) (p : Part) (id : CallId) (reply : Reply) : World :=
  match reply with
  | .error f => w.move p (.resolve id (.error f))
  | .ok document =>
    match (w.desk.get? p).bind (·.call? id) with
    | none => w
    | some c =>
      match Json.document (p.readPayload c) document with
      | .error _ => w
      | .ok payload => w.move p (.resolve id (.ok payload))

end World

end LiveDesk.Scenario
