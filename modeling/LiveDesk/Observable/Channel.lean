/-!
# Channels

A channel is an ordered list of observers and a queue of values that wait for their delivery. A
store has one channel for its snapshots, and every projection has one for its own values.

- `Observer`: an entry of the list; it leads to a subscriber's code or to a projection.
- `Channel`: the list, the queue, and whether a delivery is running.
-/

namespace LiveDesk.Observable

/-- Names a projection of one store. -/
abbrev ProjectionId := Nat

/-- Names an entry of an observer list of one store. -/
abbrev ObserverId := Nat

/-- What an observer entry leads to. -/
inductive Target where
  /-- A subscriber's code. -/
  | subscriber
  /-- A projection, which takes the value in. -/
  | projection (p : ProjectionId)
  deriving DecidableEq, Repr

/-- An entry of an observer list. -/
structure Observer where
  id : ObserverId
  target : Target
  /-- The entry's subscription exists and keeps the source alive. -/
  held : Bool
  deriving DecidableEq, Repr

/-- An observer list with its queue. -/
structure Channel (α : Type) where
  observers : List Observer
  pending : List α
  publishing : Bool

namespace Channel

variable {α : Type}

/-- The channel that nobody observes. -/
def empty : Channel α := { observers := [], pending := [], publishing := false }

instance : Inhabited (Channel α) := ⟨empty⟩

/-- Adds an observer behind the others. -/
def add (c : Channel α) (o : Observer) : Channel α :=
  { c with observers := c.observers ++ [o] }

/-- Whether an entry is still in the list. -/
def contains (c : Channel α) (id : ObserverId) : Bool :=
  c.observers.any fun o => o.id == id

/-- Removes the entry with the given name. -/
def remove (c : Channel α) (id : ObserverId) : Channel α :=
  { c with observers := c.observers.filter fun o => o.id != id }

/-- Removes the entry of a subscription that exists and has not been detached. -/
def unsubscribe (c : Channel α) (id : ObserverId) : Channel α :=
  { c with
    observers := c.observers.filter fun o => !(o.id == id && o.target == .subscriber && o.held) }

/-- Lets go of a subscription and leaves its entry in the list. -/
def detach (c : Channel α) (id : ObserverId) : Channel α :=
  { c with
    observers := c.observers.map fun o =>
      if o.id == id && o.target == .subscriber then { o with held := false } else o }

/-- Queues a value. -/
def push (c : Channel α) (a : α) : Channel α :=
  { c with pending := c.pending ++ [a] }

end Channel

end LiveDesk.Observable
