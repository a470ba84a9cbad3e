import LiveDesk.Observable.Channel

/-!
# Observable stores

A store owns one snapshot of its state and publishes every replacement to its observers. Projections
derive values from the snapshots, or from other projections, and publish a value only when it
differs from the one before. Subscribers are code of the caller: while one runs it may use the store
in any way, also update it.

The store is a machine with a control stack. Between two calls of the caller's code it makes small
steps of its own; whenever the caller's code has control, the caller chooses the next move.

- `Snapshot`: a numbered state.
- `Source`: the store, or a projection.
- `Store`: the state, the observers, the projections, and the stack of the deliveries under way.
- `Move`: what the caller's code can do, and `Move.tick`, the store's own step.
- `Store.step`: one move, with the events it causes. A move that is not possible changes nothing.
- `Store.run`: any number of moves.

A projection lives while a handle, a subscription that is not detached, a live projection over it,
or a delivery under way refers to it (`Store.isPinned`); `Store.sweep` takes the others away.
-/

namespace LiveDesk.Observable

/-- A state with the number of updates that led to it. -/
structure Snapshot (S : Type) where
  /-- Counted in 64 bits by a program; no run comes near `2 ^ 64` updates. -/
  version : Nat
  state : S

/-- What an observer is told: a snapshot of the store or a value of a projection. -/
inductive Signal (S V : Type) where
  | snapshot (x : Snapshot S)
  | view (v : V)

/-- What can be observed: the snapshots of the store, or the values of a projection. -/
inductive Source where
  | store
  | view (p : ProjectionId)
  deriving DecidableEq, Repr

/-- Where a projection takes its values from, and how. -/
inductive Origin (S V : Type) where
  /-- From the snapshots of the store. -/
  | store (select : S → V)
  /-- From the values of another projection. -/
  | view (source : ProjectionId) (select : V → V)

namespace Origin

variable {S V : Type}

/-- The source that values are derived from. -/
def source : Origin S V → Source
  | .store _ => .store
  | .view p _ => .view p

/-- The value derived from a signal of the right kind. -/
def image? : Origin S V → Signal S V → Option V
  | .store select, .snapshot x => some (select x.state)
  | .view _ select, .view v => some (select v)
  | _, _ => none

end Origin

/-- A derived value with the observers of its changes. -/
structure Projection (S V : Type) where
  id : ProjectionId
  origin : Origin S V
  /-- Its own entry in the observer list of its source. -/
  entry : ObserverId
  value : V
  channel : Channel V
  /-- How many handles the caller holds. -/
  handles : Nat

/-- An activity that has begun and not ended. `H` is what the caller may leave on the stack. -/
inductive Frame (S V H : Type) where
  /-- The store's channel is being emptied: the snapshot at hand and the observers still to be
  told. -/
  | publishing (now : Option (Snapshot S × List Observer))
  /-- A projection's channel is being emptied. -/
  | emitting (p : ProjectionId) (now : Option (V × List Observer))
  /-- A subscriber's code is running. -/
  | callback (o : ObserverId)
  /-- A subscriber's code is running for the value that it gets when it subscribes to a
  projection; its entry is added afterwards. -/
  | replay (o : ObserverId) (p : ProjectionId)
  /-- Code of the caller goes on when everything above it has returned. -/
  | code (h : H)

namespace Frame

variable {S V H : Type}

/-- Whether an activity keeps a projection alive. -/
def keeps (p : ProjectionId) : Frame S V H → Bool
  | .emitting q _ => q == p
  | .replay _ q => q == p
  | .publishing _ | .callback _ | .code _ => false

end Frame

/-- A store with everything that observes it. -/
structure Store (S V H : Type) where
  initial : S
  current : Snapshot S
  channel : Channel (Snapshot S)
  projections : List (Projection S V)
  nextProjection : ProjectionId
  /-- Counted in 64 bits by a program, in every list apart; no run comes near `2 ^ 64` entries. -/
  nextObserver : ObserverId
  stack : List (Frame S V H)

/-- An update of the state. -/
inductive Change (S : Type) where
  /-- Edits a copy of the current state. -/
  | update (f : S → S)
  /-- Edits a copy of the initial state. -/
  | reset (f : S → S)

/-- What happens in a step. -/
inductive Event (S V : Type) where
  /-- A new snapshot became current. -/
  | published (x : Snapshot S)
  /-- A subscriber's code was called with a signal. -/
  | called (o : ObserverId) (signal : Signal S V)
  /-- A projection's selector was applied to a signal. -/
  | evaluated (p : ProjectionId) (signal : Signal S V) (result : V)
  /-- A projection's value changed. -/
  | emitted (p : ProjectionId) (v : V)

/-- What the caller can do to observe a store. -/
inductive Observation (S V : Type) where
  /-- Derives a projection from the snapshots; the caller gets a handle. -/
  | project (select : S → V)
  /-- Derives a projection from another one; the caller gets a handle. -/
  | chain (source : ProjectionId) (select : V → V)
  /-- Copies a handle. -/
  | share (p : ProjectionId)
  /-- Gives a handle up. -/
  | drop (p : ProjectionId)
  /-- Subscribes to the snapshots. -/
  | subscribe
  /-- Subscribes to the values of a projection. -/
  | watch (p : ProjectionId)
  /-- Ends a subscription. -/
  | unsubscribe (o : ObserverId)
  /-- Lets a subscription go on for as long as its source lives. -/
  | detach (o : ObserverId)

/-- What can be done with a store. -/
inductive Move (S V H : Type) where
  /-- The store's own next step. -/
  | tick
  /-- Replaces the snapshot and publishes it. -/
  | change (c : Change S)
  /-- Changes who observes what. -/
  | observe (a : Observation S V)
  /-- The subscriber's code that runs returns. -/
  | ret
  /-- The code that runs fails; everything on the stack is given up. -/
  | panic
  /-- Leaves code on the stack that goes on later. -/
  | enter (h : H)
  /-- Takes code from the top of the stack. -/
  | leave

namespace Move

variable {S V H : Type}

/-- Whether a move only gives something up. Code that goes gives up what it owns, and that may
happen in the middle of a delivery; so may a failure. -/
def givesUp : Move S V H → Bool
  | .observe (.drop _) | .observe (.unsubscribe _) | .observe (.detach _) | .panic => true
  | _ => false

end Move

namespace Change

variable {S : Type}

/-- The state after the change. -/
def apply (initial current : S) : Change S → S
  | .update f => f current
  | .reset f => f initial

end Change

namespace Store

variable {S V H : Type}

/-- A store before its first update. -/
def opening (initial : S) : Store S V H where
  initial := initial
  current := { version := 0, state := initial }
  channel := .empty
  projections := []
  nextProjection := 0
  nextObserver := 0
  stack := []

/-! ## Projections by name -/

/-- The projection with the given name. -/
def get? (s : Store S V H) (p : ProjectionId) : Option (Projection S V) :=
  s.projections.find? fun q => q.id == p

/-- Changes the projection with the given name. -/
def modify (s : Store S V H) (p : ProjectionId) (f : Projection S V → Projection S V) :
    Store S V H :=
  { s with projections := s.projections.map fun q => if q.id == p then f q else q }

/-- Changes the channel of a projection. -/
def modifyChannel (s : Store S V H) (p : ProjectionId) (f : Channel V → Channel V) :
    Store S V H :=
  s.modify p fun q => { q with channel := f q.channel }

/-! ## Lifetimes -/

/-- Whether something refers to a projection: a handle, a subscription that is not detached, a
projection over it, or an activity under way. -/
def isPinned (s : Store S V H) (q : Projection S V) : Bool :=
  0 < q.handles || q.channel.observers.any (·.held) || s.stack.any (·.keeps q.id)

/-- Takes a projection away, and its entry with its source. -/
def remove (s : Store S V H) (q : Projection S V) : Store S V H :=
  let rest := { s with projections := s.projections.filter fun r => r.id != q.id }
  match q.origin with
  | .store _ => { rest with channel := rest.channel.remove q.entry }
  | .view source _ => rest.modifyChannel source (·.remove q.entry)

/-- Takes away the projections below the bound that nothing refers to. A projection is younger than
its source, so going down takes whole chains away. -/
def sweepBelow : Nat → Store S V H → Store S V H
  | 0, s => s
  | p + 1, s =>
    match s.get? p with
    | none => sweepBelow p s
    | some q => if s.isPinned q then sweepBelow p s else sweepBelow p (s.remove q)

/-- Takes away every projection that nothing refers to. -/
def sweep (s : Store S V H) : Store S V H :=
  sweepBelow s.nextProjection s

/-! ## Delivery -/

/-- Whether the code or the projection that an entry leads to is at work further down the stack. -/
def isRunning (s : Store S V H) (o : Observer) : Bool :=
  s.stack.any fun
    | .callback id => o.target == .subscriber && id == o.id
    | .emitting p _ => o.target == .projection p
    | _ => false

/-- Gives a projection a newly derived value: an equal one is dropped, another one is kept and
queued for its observers, whose delivery starts unless one is running. -/
def accept [DecidableEq V] (s : Store S V H) (q : Projection S V) (v : V) :
    Store S V H × List (Event S V) :=
  if q.value = v then (s, [])
  else
    let kept := s.modify q.id fun q =>
      { q with value := v, channel := { q.channel.push v with publishing := true } }
    if q.channel.publishing then (kept, [.emitted q.id v])
    else ({ kept with stack := .emitting q.id none :: kept.stack }, [.emitted q.id v])

/-- Tells one observer a signal. -/
def tell [DecidableEq V] (s : Store S V H) (o : Observer) (signal : Signal S V) :
    Store S V H × List (Event S V) :=
  if s.isRunning o then (s, [])
  else
    match o.target with
    | .subscriber => ({ s with stack := .callback o.id :: s.stack }, [.called o.id signal])
    | .projection p =>
      match s.get? p with
      | none => (s, [])
      | some q =>
        match q.origin.image? signal with
        | none => (s, [])
        | some v =>
          let (s, events) := s.accept q v
          (s, .evaluated p signal v :: events)

/-- One step of the delivery of the store's snapshots, which is on top of the given stack. -/
def publishStep [DecidableEq V] (s : Store S V H) (below : List (Frame S V H)) :
    Option (Snapshot S × List Observer) → Store S V H × List (Event S V)
  | some (x, o :: rest) =>
    let s := { s with stack := .publishing (some (x, rest)) :: below }
    if s.channel.contains o.id then s.tell o (.snapshot x) else (s, [])
  | some (_, []) => ({ s with stack := .publishing none :: below }, [])
  | none =>
    match s.channel.pending with
    | x :: later =>
      ({ s with
          channel := { s.channel with pending := later }
          stack := .publishing (some (x, s.channel.observers)) :: below }, [])
    | [] => ({ s with channel := { s.channel with publishing := false }, stack := below }, [])

/-- One step of the delivery of a projection's values, which is on top of the given stack. -/
def emitStep [DecidableEq V] (s : Store S V H) (below : List (Frame S V H)) (p : ProjectionId) :
    Option (V × List Observer) → Store S V H × List (Event S V)
  | some (v, o :: rest) =>
    let s := { s with stack := .emitting p (some (v, rest)) :: below }
    if (s.get? p).any (·.channel.contains o.id) then s.tell o (.view v) else (s, [])
  | some (_, []) => ({ s with stack := .emitting p none :: below }, [])
  | none =>
    match s.get? p with
    | none => ({ s with stack := below }.sweep, [])
    | some q =>
      match q.channel.pending with
      | v :: later =>
        let s := s.modifyChannel p fun c => { c with pending := later }
        ({ s with stack := .emitting p (some (v, q.channel.observers)) :: below }, [])
      | [] =>
        let s := s.modifyChannel p fun c => { c with publishing := false }
        ({ s with stack := below }.sweep, [])

/-- The store's own next step, if the caller's code does not have control. -/
def tick [DecidableEq V] (s : Store S V H) : Store S V H × List (Event S V) :=
  match s.stack with
  | .publishing now :: below => s.publishStep below now
  | .emitting p now :: below => s.emitStep below p now
  | _ => (s, [])

/-- Whether the caller's code has control. -/
def isWaiting (s : Store S V H) : Bool :=
  match s.stack with
  | .publishing _ :: _ | .emitting _ _ :: _ => false
  | _ => true

/-! ## Moves of the caller -/

/-- Makes the changed state current at once; its delivery starts unless one is running. -/
def change (s : Store S V H) (c : Change S) : Store S V H × List (Event S V) :=
  let next : Snapshot S :=
    { version := s.current.version + 1, state := c.apply s.initial s.current.state }
  let queued := { s with
    current := next
    channel := { s.channel.push next with publishing := true } }
  if s.channel.publishing then (queued, [.published next])
  else ({ queued with stack := .publishing none :: s.stack }, [.published next])

/-- Adds a projection with one handle, and its entry with its source. -/
def addProjection (s : Store S V H) (origin : Origin S V) (value : V) : Store S V H :=
  let entry : Observer :=
    { id := s.nextObserver, target := .projection s.nextProjection, held := true }
  let q : Projection S V :=
    { id := s.nextProjection, origin, entry := entry.id, value, channel := .empty, handles := 1 }
  let observed :=
    match origin with
    | .store _ => { s with channel := s.channel.add entry }
    | .view source _ => s.modifyChannel source (·.add entry)
  { observed with
    projections := q :: observed.projections
    nextProjection := s.nextProjection + 1
    nextObserver := s.nextObserver + 1 }

/-- Derives a projection from the current snapshot. -/
def project (s : Store S V H) (select : S → V) : Store S V H × List (Event S V) :=
  let v := select s.current.state
  (s.addProjection (.store select) v, [.evaluated s.nextProjection (.snapshot s.current) v])

/-- The projection with the given name, if the caller has a handle of it. -/
def handled? (s : Store S V H) (p : ProjectionId) : Option (Projection S V) :=
  (s.get? p).filter fun q => 0 < q.handles

/-- Derives a projection from the current value of another one. -/
def chain (s : Store S V H) (source : ProjectionId) (select : V → V) :
    Store S V H × List (Event S V) :=
  match s.handled? source with
  | none => (s, [])
  | some q =>
    let v := select q.value
    (s.addProjection (.view source select) v, [.evaluated s.nextProjection (.view q.value) v])

/-- Copies a handle. -/
def share (s : Store S V H) (p : ProjectionId) : Store S V H :=
  match s.handled? p with
  | none => s
  | some _ => s.modify p fun q => { q with handles := q.handles + 1 }

/-- Gives a handle up. -/
def drop (s : Store S V H) (p : ProjectionId) : Store S V H :=
  (s.modify p fun q => { q with handles := q.handles - 1 }).sweep

/-- Subscribes to the snapshots that follow. -/
def subscribe (s : Store S V H) : Store S V H :=
  { s with
    channel := s.channel.add { id := s.nextObserver, target := .subscriber, held := true }
    nextObserver := s.nextObserver + 1 }

/-- Calls a new subscriber with the current value of a projection; when its code returns, it is
added to the observers. -/
def watch (s : Store S V H) (p : ProjectionId) : Store S V H × List (Event S V) :=
  match s.handled? p with
  | none => (s, [])
  | some q =>
    ({ s with
        stack := .replay s.nextObserver p :: s.stack
        nextObserver := s.nextObserver + 1 },
      [.called s.nextObserver (.view q.value)])

/-- Ends a subscription, wherever it is. -/
def unsubscribe (s : Store S V H) (o : ObserverId) : Store S V H :=
  sweep { s with
    channel := s.channel.unsubscribe o
    projections := s.projections.map fun q =>
      { q with channel := q.channel.unsubscribe o } }

/-- Lets go of a subscription, wherever it is. -/
def detach (s : Store S V H) (o : ObserverId) : Store S V H :=
  sweep { s with
    channel := s.channel.detach o
    projections := s.projections.map fun q => { q with channel := q.channel.detach o } }

/-- The subscriber's code on top of the stack returns. -/
def ret (s : Store S V H) : Store S V H :=
  match s.stack with
  | .callback _ :: below => { s with stack := below }
  | .replay o p :: below =>
    let s := s.modifyChannel p (·.add { id := o, target := .subscriber, held := true })
    { s with stack := below }.sweep
  | _ => s

/-- Ends an activity in the middle: a delivery leaves its channel ready for the next one. -/
def abandon (s : Store S V H) : Frame S V H → Store S V H
  | .publishing _ => { s with channel := { s.channel with publishing := false } }
  | .emitting p _ => s.modifyChannel p fun c => { c with publishing := false }
  | .callback _ | .replay _ _ | .code _ => s

/-- Gives the stack up. Snapshots and values that are queued stay queued. -/
def panic (s : Store S V H) : Store S V H :=
  sweep { s.stack.foldl abandon s with stack := [] }

/-- Takes code of the caller from the top of the stack. -/
def leave (s : Store S V H) : Store S V H :=
  match s.stack with
  | .code _ :: below => { s with stack := below }
  | _ => s

/-- Leaves code of the caller on the stack. -/
def enter (s : Store S V H) (h : H) : Store S V H :=
  { s with stack := .code h :: s.stack }

/-- Changes who observes what. -/
def observe (s : Store S V H) : Observation S V → Store S V H × List (Event S V)
  | .project select => s.project select
  | .chain source select => s.chain source select
  | .share p => (s.share p, [])
  | .drop p => (s.drop p, [])
  | .subscribe => (s.subscribe, [])
  | .watch p => s.watch p
  | .unsubscribe o => (s.unsubscribe o, [])
  | .detach o => (s.detach o, [])

/-- A move of the caller's code. -/
def perform (s : Store S V H) : Move S V H → Store S V H × List (Event S V)
  | .tick => (s, [])
  | .change c => s.change c
  | .observe a => s.observe a
  | .ret => (s.ret, [])
  | .panic => (s.panic, [])
  | .enter h => (s.enter h, [])
  | .leave => (s.leave, [])

/-- One move. The store's own step is made while the caller's code does not have control, a move
that only gives something up at any time, and every other move while the caller's code has
control. -/
def step [DecidableEq V] (s : Store S V H) (m : Move S V H) : Store S V H × List (Event S V) :=
  if m.givesUp || s.isWaiting then s.perform m
  else
    match m with
    | .tick => s.tick
    | _ => (s, [])

/-- Any number of moves, with all events in order. -/
def run [DecidableEq V] (s : Store S V H) : List (Move S V H) → Store S V H × List (Event S V)
  | [] => (s, [])
  | m :: ms =>
    let (s, events) := s.step m
    let (s, later) := s.run ms
    (s, events ++ later)

end Store

end LiveDesk.Observable
