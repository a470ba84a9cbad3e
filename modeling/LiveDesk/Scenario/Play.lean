import LiveDesk.Scenario.World

/-!
# Playing scenarios

A step is played until nothing is left to be done: the parts of the desk deliver, the code of
subscribers goes through its rules, calls return. Then the step reports what it returned, what it
showed, and the state of its part.

- `World.begin`: what a step does at once.
- `World.work`: what becomes of a task.
- `World.step`: one small step; none if nothing is left to be done.
- `World.play`, `World.playAll`: a step of the scenario with its report, and all steps.
-/

namespace LiveDesk.Scenario

open Observable

namespace Rule

variable {S : Type}

/-- Whether a rule that has fired so often fires for a value. Values that differ in the order of
their fields alone are the same. -/
def fires (r : Rule S) (fired : Nat) (value : Json) : Bool :=
  fired < r.limit && r.trigger.all fun v => v.canonical = value.canonical

end Rule

namespace World

/-! ## What a step does at once -/

/-- The part of the given name, while the desk is open. -/
def session? (w : World) (p : Part) : Option (Session p.feature View) :=
  if w.isClosed then none else w.desk.get? p

/-- Has an outcome, and nothing else to do. -/
def give (w : World) (who : Taker) (o : Outcome) : World :=
  w.later who (.give o)

/-- Does something with an open part. -/
def withPart (w : World) (who : Taker) (p : Part) (f : Session p.feature View → World) : World :=
  match w.session? p with
  | none => w.give who .closed
  | some s => f s

/-- Does something with a projection. -/
def withProjection (w : World) (who : Taker) (name : String)
    (f : (q : ProjectionName) → Session q.part.feature View → World) : World :=
  match w.projections.get? name with
  | none => w.give who .unknownName
  | some q =>
    match w.desk.get? q.part with
    | none => w.give who .unknownName
    | some s => f q s

/-- Derives a projection from a part under a name. The selectors of a document are counted. -/
def project (w : World) (who : Taker) (p : Part) (name view : String) : World :=
  w.withPart who p fun s =>
    let id := s.store.nextProjection
    let w := w.give who .nothing
    match p.views.lookup view with
    | none => w
    | some (.direct select) =>
      let selectors := if p = .document then (⟨p, id⟩, name) :: w.selectors else w.selectors
      let w := { w with selectors }
      (w.observe p (.project select)).nameProjection name ⟨p, id⟩
    | some (.derived select next) =>
      let w := (w.observe p (.project select)).observe p (.chain id next)
      (w.observe p (.drop id)).nameProjection name ⟨p, id + 1⟩

/-- Derives a projection from another one under a name. Its selector is counted. -/
def chain (w : World) (who : Taker) (name source : String) (selector : Selector) : World :=
  w.withProjection who source fun q s =>
    let id := s.store.nextProjection
    let w := { w with selectors := (⟨q.part, id⟩, name) :: w.selectors }.give who .nothing
    (w.observe q.part (.chain q.id selector.view)).nameProjection name ⟨q.part, id⟩

/-- Copies a handle of a projection under a name. -/
def share (w : World) (who : Taker) (name source : String) : World :=
  w.withProjection who source fun q _ =>
    ((w.give who .nothing).observe q.part (.share q.id)).nameProjection name q

/-- Gives a handle of a projection up. -/
def drop (w : World) (who : Taker) (name : String) : World :=
  w.withProjection who name fun q _ =>
    let w := { w with projections := w.projections.without name }.give who .nothing
    w.observe q.part (.drop q.id)

/-- Looks at a projection. -/
def look (w : World) (who : Taker) (name : String) : World :=
  w.withProjection who name fun q s =>
    match s.store.get? q.id with
    | none => w.give who .unknownName
    | some x => w.give who (.value x.value.toJson)

/-- Subscribes to the snapshots of a part under a name. -/
def follow (w : World) (who : Taker) (p : Part) (name : String) (rules : List (Rule Step)) :
    World :=
  w.withPart who p fun s =>
    let subscription : SubscriptionName := ⟨p, s.store.nextObserver⟩
    (((w.give who .nothing).subscribe subscription name rules).observe p
      .subscribe).nameSubscription name subscription

/-- Subscribes to a projection under a name, which the subscription gets when its code has been
called with the current value. -/
def watch (w : World) (who : Taker) (name source : String) (rules : List (Rule Step)) : World :=
  w.withProjection who source fun q s =>
    let subscription : SubscriptionName := ⟨q.part, s.store.nextObserver⟩
    ((w.later who (.name name subscription)).subscribe subscription name rules).observe q.part
      (.watch q.id)

/-- Takes the name from a subscription and does something with it. -/
def release (w : World) (who : Taker) (name : String)
    (f : (p : Part) → ObserverId → Observation p.feature.State View) : World :=
  match w.subscriptions.get? name with
  | none => w.give who .unknownName
  | some s =>
    let w := { w with subscriptions := w.subscriptions.without name }.give who .nothing
    w.observe s.part (f s.part s.id)

/-- Does something with a call in flight. -/
def withCall (w : World) (who : Taker) (name : CallName) (f : SentRequest → World) : World :=
  match w.find? name with
  | none => w.give who .unknownCall
  | some r => f r

/-- Takes the name from a guard and ends it. -/
def endGuard (w : World) (who : Taker) (name : String)
    (f : CallId → Session.Move Document.feature View) : World :=
  match w.guards.get? name with
  | none => w.give who .unknownName
  | some id =>
    let w := { w with guards := w.guards.without name }.give who .nothing
    w.move .document (f id)

/-- Puts a row into the repository. -/
def insertRow (w : World) (who : Taker) (row : Storage.Row) : World :=
  match w.repository.bind (·.insert row) with
  | none => w.give who .constraint
  | some repository => { w with repository := some repository }.give who (.number 1)

/-- Closes the desk. -/
def close (w : World) (who : Taker) : World :=
  if w.isClosed then w.give who .closed
  else ({ w with isClosed := true }.emit (.logged Desk.closingEntry)).give who .nothing

/-- The version and the state of a part, while the desk is open. -/
def status (w : World) (p : Part) : Option (Nat × Json) :=
  (w.session? p).map fun s => (s.store.current.version, p.stateJson s.state)

/-- What is seen of a part; nothing if the desk is closed. -/
def inspection (w : World) (p : Part) : Outcome :=
  match w.status p with
  | none => .nothing
  | some (version, v) => .state version v

/-- What an edit returns. -/
def editOutcome : Option Bool → Outcome
  | none => .nothing
  | some b => .flag b

/-- What a step does at once, and how it goes on. -/
def begin (w : World) (who : Taker) : Deed Step → World
  | .project p name view => w.project who p name view
  | .chain name source selector => w.chain who name source selector
  | .share name source => w.share who name source
  | .drop name => w.drop who name
  | .look name => w.look who name
  | .countCalls name => w.give who (.number ((w.calls.get? name).getD 0))
  | .follow p name rules => w.follow who p name rules
  | .watch name source rules => w.watch who name source rules
  | .unsubscribe name => w.release who name fun _ o => .unsubscribe o
  | .detach name => w.release who name fun _ o => .detach o
  | .nameOf p => w.withPart who p fun _ => w.give who (.text p.feature.name)
  | .inspect p => w.give who (w.inspection p)
  | .restart p label => w.withPart who p fun _ =>
    (w.give who .nothing).move p (.publish ⟨.reset id, label⟩)
  | .messages => w.give who (.messages w.messages)
  | .settings => w.give who (if w.isClosed then .closed else .settings w.settings)
  | .close => w.close who
  | .panic => w.later who .panic
  | .insertRow row => w.insertRow who row
  | .edit p e => w.withPart who p fun s =>
    (w.give who (editOutcome (p.feature.answer e s.state))).move p (.edit e)
  | .publish p x => w.withPart who p fun _ => (w.give who .nothing).move p (.publish x)
  | .ask p a reply => w.withPart who p fun s =>
    (w.later who (.await p s.nextCall reply)).move p (.ask a)
  | .resolve name reply => w.withCall who name fun r =>
    (w.later who (.await r.part r.call none)).answer r.part r.call reply
  | .cancel name => w.withCall who name fun r =>
    (w.give who .nothing).move r.part (.cancel r.call)
  | .hold name => w.withPart who .document fun s =>
    { w with held := w.held.put name s.state.toJson }.give who .nothing
  | .held name => w.give who (((w.held.get? name).map .kept).getD .nothing)
  | .guard name g => w.withPart who .document fun s =>
    (w.later who (.guarded name s.nextCall)).move .document (.ask g)
  | .complete name done => w.endGuard who name fun id => .resolve id (.ok done)
  | .release name => w.endGuard who name fun id => .cancel id
  | .panicGuarded g => w.withPart who .document fun s =>
    (w.later who (.fall s.nextCall)).move .document (.ask g)

/-! ## Tasks -/

/-- Reports what a step returned. -/
def report (w : World) (who : Taker) (o : Outcome) : World :=
  match who with
  | none => { w with outcome := some o }
  | some (name, word) => w.emit (.reacted name word o)

/-- The code that runs fails: everything that was still to be done is given up. -/
def collapse (w : World) : World :=
  let w := { w with tasks := [], returned := [], outcome := some .panic }
  Part.all.foldl (fun w p => w.move p .panic) w

/-- Waits for a call: it has returned, or is answered now, or stays in flight. -/
def await (w : World) (who : Taker) (p : Part) (id : CallId) (reply : Option Reply) : World :=
  match w.answer? p id with
  | some o => w.report who o
  | none =>
    match w.inFlight.find? fun r => r.part = p && r.call = id with
    | none => w.report who .nothing
    | some r =>
      match reply with
      | none => w.report who (.pending r.number)
      | some reply => (w.later who (.await p id none)).answer p id reply

/-- Gives a guard a name; one that had the name is given up. -/
def nameGuard (w : World) (who : Taker) (name : String) (id : CallId) : World :=
  let old := w.guards.get? name
  let w := { w with guards := w.guards.put name id }
  match old with
  | none => w.report who .nothing
  | some old => (w.give who .nothing).move .document (.cancel old)

/-- A step comes to its end. -/
def finish (w : World) (who : Taker) : After → World
  | .give o => w.report who o
  | .await p id reply => w.await who p id reply
  | .name name s => (w.nameSubscription name s).report who .nothing
  | .guarded name id => w.nameGuard who name id
  | .fall id => (w.later who .panic).move .document (.cancel id)
  | .panic => w.collapse

/-- A subscriber's code comes to the rule at a place. A rule that fires counts before it takes its
steps. -/
def applyRule (w : World) (s : SubscriptionName) (value : Json) (place : Nat) : World :=
  match w.subscriber? s with
  | none => w
  | some x =>
    match x.rules[place]? with
    | none => w
    | some (rule, fired) =>
      let w := w.push (.rules s value (place + 1))
      if rule.fires fired value then
        let raised := { x with rules := x.rules.set place (rule, fired + 1) }
        let subscribers := w.subscribers.map fun y => if y.subscription = s then raised else y
        { w with subscribers }.push (.steps x.name rule.steps)
      else w

/-- What becomes of a task. -/
def work (w : World) : Task → World
  | .rules s value place => w.applyRule s value place
  | .steps _ [] => w
  | .steps name (step :: rest) =>
    (w.push (.steps name rest)).begin (some (name, step.word)) step.deed
  | .finish who after => w.finish who after
  | .move p m => w.move p m

/-! ## Playing -/

/-- A part that does not wait for the caller's code. -/
def busyPart? (w : World) : Option Part :=
  Part.all.find? fun p => (w.desk.get? p).any fun s => !s.isFree

/-- One small step: a part goes on, or else the top task is done. None if nothing is left. -/
def step (w : World) : Option World :=
  match w.busyPart? with
  | some p => some (w.move p .tick)
  | none =>
    match w.tasks with
    | [] => none
    | t :: rest => some ({ w with tasks := rest }.work t)

/-- Small steps until nothing is left to be done, or the fuel is used up. -/
def settle : Nat → World → World
  | 0, w => w
  | fuel + 1, w =>
    match w.step with
    | none => w
    | some w => settle fuel w

end World

/-- What a step of a scenario returned and showed, with the version and the state of its part. -/
structure Report where
  outcome : Option Outcome
  events : List Event
  state : Option (Nat × Json)

namespace World

/-- Plays one step of a scenario. -/
def play (fuel : Nat) (w : World) (s : Step) : World × Report :=
  let w := settle fuel ({ w with events := [], outcome := none, returned := [] }.begin none s.deed)
  (w, ⟨w.outcome, w.events.reverse, s.on.bind w.status⟩)

/-- Plays a scenario. -/
def playAll (fuel : Nat) (w : World) : List Step → List Report
  | [] => []
  | s :: rest =>
    let (w, report) := w.play fuel s
    report :: playAll fuel w rest

end World

end LiveDesk.Scenario
