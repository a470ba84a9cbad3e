import LiveDesk.Observable.Store

/-!
# What code owns

The code of a subscriber and the selector of a projection are closures, which may own handles of
projections and subscriptions. Code that goes gives up what it owns, and that may take other code
away.

An entry is taken out of a list while the list is borrowed, and the code of the entry goes
meanwhile. If this code, as it goes, has another entry of the same list taken out, that fails: the
other entry stays behind for as long as the list exists, although its subscription or its
projection is gone. The failure goes on as one of the caller's code does, and a second one on its
way ends the program.

- `Belonging`: a handle or a subscription.
- `Estate`: a store, what the code of its entries owns, and the moves under way.
- `Estate.Act`: a move of the store, or code is given something to own, or something is taken back.
- `Estate.firstToGo?`: what is given up next, before a move is made.
- `Estate.carryOut`: the move itself, with what it fails to take out.
- `Estate.step`, `Estate.run`: one act, and any number of acts.

Where no code owns anything, this is the store with its moves. The entry that a projection leaves
behind leads nowhere, so it has no turns.
-/

namespace LiveDesk.Observable

/-- Something that code may own. -/
inductive Belonging where
  | handle (p : ProjectionId)
  | subscription (o : ObserverId)
  deriving DecidableEq, Repr

/-- Giving a belonging up. -/
def Belonging.release {S V : Type} : Belonging → Observation S V
  | .handle p => .drop p
  | .subscription o => .unsubscribe o

/-- A belonging that is given up by code as it goes. -/
structure Release where
  belonging : Belonging
  /-- The list that the entry of the code is just being taken out of. -/
  borrowed : Option Source

namespace Move

variable {S V H : Type}

/-- The store's own step. -/
def isTick : Move S V H → Bool
  | .tick => true
  | .change _ | .observe _ | .ret | .panic | .enter _ | .leave => false

/-- A failure. -/
def isFailure : Move S V H → Bool
  | .panic => true
  | .tick | .change _ | .observe _ | .ret | .enter _ | .leave => false

end Move

/-- Whether an entry is that of a subscription that exists and has not been detached. -/
def Channel.holds {α : Type} (c : Channel α) (o : ObserverId) : Bool :=
  c.observers.any fun e => e.id == o && e.target == .subscriber && e.held

namespace Frame

variable {S V H : Type}

/-- The code that an activity keeps: that of the observers still to be told, of the observer that is
being told, and of a subscriber whose entry is not added yet. -/
def grips (s : Store S V H) : Frame S V H → List ObserverId
  | .publishing now => (now.map fun (_, rest) => rest.map (·.id)).getD []
  | .emitting p now =>
    (now.map fun (_, rest) => rest.map (·.id)).getD [] ++ ((s.get? p).map (·.entry)).toList
  | .callback o | .replay o _ => [o]
  | .code _ => []

end Frame

namespace Store

variable {S V H : Type}

/-- Whether a source exists. -/
def has (s : Store S V H) : Source → Bool
  | .store => true
  | .view p => (s.get? p).isSome

/-- How many handles of a projection there are. -/
def handleCount (s : Store S V H) (p : ProjectionId) : Nat :=
  ((s.get? p).map (·.handles)).getD 0

/-- The projections, the youngest first. -/
def living (s : Store S V H) : List (Projection S V) :=
  (List.range s.nextProjection).reverse.filterMap s.get?

/-- The list with the entry of a subscription that exists and has not been detached. -/
def home? (s : Store S V H) (o : ObserverId) : Option Source :=
  if s.channel.holds o then some .store
  else (s.living.find? (·.channel.holds o)).map fun q => .view q.id

/-- The source of the projection that has an entry. -/
def upstream? (s : Store S V H) (o : ObserverId) : Option Source :=
  (s.living.find? (·.entry == o)).map (·.origin.source)

/-- The code that activities keep. -/
def gripped (s : Store S V H) : List ObserverId :=
  s.stack.flatMap (·.grips s)

/-- The code that a store keeps, in the order in which it goes: the youngest projection is the first
to go, its list before its own entry. -/
def kept (s : Store S V H) : List ObserverId :=
  s.gripped ++ s.living.flatMap (fun q => q.channel.observers.map (·.id) ++ [q.entry])
    ++ s.channel.observers.map (·.id)

end Store

/-- A store, what the code of its entries owns, and the moves under way. -/
structure Estate (S V H : Type) where
  store : Store S V H
  /-- What code owns, with the name of its entry; in the order in which it is given up. -/
  owned : List (ObserverId × Belonging)
  /-- The move that the caller or the store began, while what goes with it is being given up. -/
  request : Option (Move S V H)
  /-- What is being given up, the innermost first. -/
  releases : List Release
  /-- The subscriptions that ended but whose entries stayed behind. -/
  stuck : List ObserverId
  /-- The entries of projections that are gone, with the lists in which they stayed behind. -/
  strays : List (Source × ObserverId)
  /-- Something failed, and the stack is yet to be given up. -/
  failing : Bool
  /-- Something failed on the way of a failure. -/
  aborted : Bool

namespace Estate

variable {S V H : Type}

/-- What can be done with an estate. -/
inductive Act (S V H : Type) where
  /-- A move of the store; a tick also goes on with what is being given up. -/
  | make (m : Move S V H)
  /-- Gives something to the code of an entry. -/
  | entrust (o : ObserverId) (b : Belonging)
  /-- Takes something back from the code of an entry. -/
  | reclaim (o : ObserverId) (b : Belonging)

/-- A store before its first update. No code owns anything. -/
def opening (initial : S) : Estate S V H where
  store := .opening initial
  owned := []
  request := none
  releases := []
  stuck := []
  strays := []
  failing := false
  aborted := false

/-- Whether code is kept: by the store, or by an entry that stayed behind in the list of a source
that exists. -/
def keeps (e : Estate S V H) (o : ObserverId) : Bool :=
  e.store.kept.contains o || e.strays.any fun (src, o') => o' == o && e.store.has src

/-- Whether an entry is just being taken out of a list, while its code goes. -/
def isBorrowed (e : Estate S V H) (src : Source) : Bool :=
  e.releases.any fun r => r.borrowed == some src

/-- Whether something is not owned by code, but by the caller. -/
def isFree (e : Estate S V H) : Belonging → Bool
  | .handle p => (e.owned.filter (·.2 == .handle p)).length < e.store.handleCount p
  | .subscription o => (e.store.home? o).isSome && !e.owned.any (·.2 == .subscription o)

/-! ## One move of the store -/

/-- The move that is made next. -/
def due? (e : Estate S V H) : Option (Move S V H) :=
  match e.releases with
  | r :: _ => some (.observe r.belonging.release)
  | [] => e.request

/-- Whether the entry of a subscription cannot be taken out of its list. -/
def isStuck (e : Estate S V H) (o : ObserverId) : Bool :=
  (e.store.home? o).any e.isBorrowed

/-- What a move of the store comes to: an entry that cannot be taken out stays, and after a failure
a delivery does not go on. -/
def effective (e : Estate S V H) : Move S V H → Move S V H
  | .observe (.unsubscribe o) =>
    .observe (if e.isStuck o then .detach o else .unsubscribe o)
  | .tick => if e.failing then .panic else .tick
  | m => m

/-- The subscription that a move ends, if its entry cannot be taken out. -/
def sticks (e : Estate S V H) : Move S V H → List ObserverId
  | .observe (.unsubscribe o) => if e.isStuck o then [o] else []
  | _ => []

/-- The entries of the projections that are gone in the given store, if they cannot be taken out of
the lists of their sources. -/
def strands (e : Estate S V H) (t : Store S V H) : List (Source × ObserverId) :=
  (e.store.living.filter fun q => e.isBorrowed q.origin.source && !t.has (.view q.id)).map fun q =>
    (q.origin.source, q.entry)

variable [DecidableEq V]

/-- Makes a move of the store. -/
def carryOut (e : Estate S V H) (m : Move S V H) : Estate S V H × List (Event S V) :=
  let (t, events) := e.store.step (e.effective m)
  let failures := (e.sticks m).length + (e.strands t).length
  ({ e with
      store := t
      stuck := e.stuck ++ e.sticks m
      strays := e.strays ++ e.strands t
      failing := e.failing || 0 < failures
      aborted := e.aborted || 1 < failures || (e.failing && 0 < failures) },
    events)

/-- The code that may go with a move, in the order in which it does: that of a subscription that is
ended, and then whatever loses its last entry or activity. -/
def candidates (e : Estate S V H) : Move S V H → List ObserverId
  | .observe (.unsubscribe o) => o :: (e.store.kept ++ e.strays.map (·.2))
  | _ => e.store.kept ++ e.strays.map (·.2)

/-- What is given up next, before a move of the store is made: the first belonging of code that goes
with the move. -/
def firstToGo? (e : Estate S V H) (m : Move S V H) : Option (ObserverId × Belonging) :=
  ((e.candidates m).filter fun o => !(e.carryOut m).1.keeps o).findSome? fun o =>
    e.owned.find? (·.1 == o)

/-- The list that the entry of code is being taken out of, when the code goes with a move. Code that
an activity keeps outlives its entry, and a list that goes is not emptied first. -/
def borrows (e : Estate S V H) (m : Move S V H) (o : ObserverId) : Option Source :=
  if e.store.gripped.contains o then none
  else
    match m with
    | .observe (.unsubscribe o') => if o' = o then e.store.home? o else e.store.upstream? o
    | _ => e.store.upstream? o

/-- When everything has been given up, a failure takes the stack away. -/
def conclude (e : Estate S V H) : Estate S V H :=
  if e.failing && !e.store.stack.isEmpty then { e with request := some .panic }
  else { e with request := none, failing := false }

/-- Goes on with the moves under way: gives one more thing up, or makes a move of the store. -/
def attend (e : Estate S V H) : Estate S V H × List (Event S V) :=
  match e.due? with
  | none => (e, [])
  | some m =>
    match e.firstToGo? m with
    | some (o, b) =>
      ({ e with
          owned := e.owned.erase (o, b)
          releases := { belonging := b, borrowed := e.borrows m o } :: e.releases },
        [])
    | none =>
      let (u, events) := e.carryOut m
      match e.releases with
      | _ :: rest => ({ u with releases := rest }, events)
      | [] => (u.conclude, events)

/-! ## Acts -/

/-- Whether nothing is under way. -/
def isSettled (e : Estate S V H) : Bool :=
  e.request.isNone

/-- Whether the caller has what a move of the store gives up. -/
def affords (e : Estate S V H) : Move S V H → Bool
  | .observe (.drop p) => e.store.isWaiting && e.isFree (.handle p)
  | .observe (.unsubscribe o) | .observe (.detach o) =>
    e.store.isWaiting && e.isFree (.subscription o)
  | .panic => e.store.isWaiting
  | _ => true

/-- Whether an act is possible, as far as it is not for the store to say. -/
def permits (e : Estate S V H) : Act S V H → Bool
  | .make m => !e.aborted && if e.isSettled then e.affords m else m.isTick
  | .entrust o b => !e.aborted && e.isSettled && e.store.isWaiting && e.keeps o && e.isFree b
  | .reclaim o b => !e.aborted && e.isSettled && e.store.isWaiting && e.owned.contains (o, b)

/-- Begins a move, unless one is under way. -/
def undertake (e : Estate S V H) (m : Move S V H) : Estate S V H :=
  if e.isSettled then { e with request := some m, failing := m.isFailure } else e

/-- One act. An act that is not possible changes nothing. -/
def step (e : Estate S V H) (a : Act S V H) : Estate S V H × List (Event S V) :=
  if e.permits a then
    match a with
    | .make m => (e.undertake m).attend
    | .entrust o b => ({ e with owned := e.owned ++ [(o, b)] }, [])
    | .reclaim o b => ({ e with owned := e.owned.erase (o, b) }, [])
  else (e, [])

/-- Any number of acts, with all events in order. -/
def run (e : Estate S V H) : List (Act S V H) → Estate S V H × List (Event S V)
  | [] => (e, [])
  | a :: as =>
    let (e, events) := e.step a
    let (e, later) := e.run as
    (e, events ++ later)

end Estate

end LiveDesk.Observable
