import LiveDesk.Desk
import LiveDesk.Storage.Repository

/-!
# Scenarios

A scenario is a list of steps that somebody takes at a desk. Projections, subscriptions, guards and
snapshots go by names of the scenario's choice. A subscription can come with rules: its code takes
further steps when it is called.

- `Step`, `Deed`: a step and what is done in it.
- `Rule`: when a subscriber's code takes which steps.
- `Selector`: how a projection is derived from another one.
- `Event`, `Outcome`: what a step shows while it runs, and what it returns.
-/

namespace LiveDesk.Scenario

/-- How a value is derived from another one. -/
inductive Selector where
  | same
  /-- Whether it is a number above the bound. -/
  | greater (bound : Int)
  /-- The remainder of a division, from zero on. -/
  | remainder (divisor : Int)
  /-- The number of its items or characters. -/
  | size
  /-- Its first item. -/
  | first
  | isNull
  deriving DecidableEq, Repr

namespace Selector

/-- A value as a number of 64 signed bits; zero if it is none. -/
def number : Json → Int
  | .int n => if (toInt64? n).isSome then n else 0
  | _ => 0

/-- The derived value. -/
def apply : Selector → Json → Json
  | .same, v => v
  | .greater bound, v => .bool (bound < number v)
  | .remainder divisor, v => .int (number v % divisor)
  | .size, .list items => .ofNat items.length
  | .size, .text s => .ofNat s.length
  | .size, _ => .ofNat 0
  | .first, .list (v :: _) => v
  | .first, _ => .null
  | .isNull, v => .bool (v = .null)

/-- The selector on the values of projections. -/
def view (s : Selector) (v : View) : View :=
  .json (s.apply v.toJson)

end Selector

/-- Says which call in flight is meant. -/
inductive CallName where
  | number (n : Nat)
  | oldest
  | newest
  deriving DecidableEq, Repr

/-- What a backend answers: a failure, or a document. -/
abbrev Reply := Except Failure String

/-- A rule for a subscriber's code. `S` holds its steps. -/
structure Rule (S : Type) where
  /-- The value for which it fires; without one it fires for every value. -/
  trigger : Option Json
  /-- How often it fires at most. -/
  limit : Nat
  steps : List S
  deriving Inhabited

/-- What is done in a step. `S` holds the steps of rules. -/
inductive Deed (S : Type) where
  /-- Derives a projection from a part. -/
  | project (p : Part) (name view : String)
  /-- Derives a projection from another one. -/
  | chain (name source : String) (s : Selector)
  /-- Copies a handle of a projection. -/
  | share (name source : String)
  /-- Gives a handle of a projection up. -/
  | drop (name : String)
  /-- Looks at a projection. -/
  | look (name : String)
  /-- Counts the calls of a selector. -/
  | countCalls (name : String)
  /-- Subscribes to the snapshots of a part. -/
  | follow (p : Part) (name : String) (rules : List (Rule S))
  /-- Subscribes to a projection. -/
  | watch (name source : String) (rules : List (Rule S))
  | unsubscribe (name : String)
  | detach (name : String)
  /-- Asks for the name of a part. -/
  | nameOf (p : Part)
  /-- Looks at a part. -/
  | inspect (p : Part)
  /-- Goes back to the initial state of a part. -/
  | restart (p : Part) (label : String)
  /-- Looks at what the user was told. -/
  | messages
  /-- Looks at the settings. -/
  | settings
  /-- Closes the desk. -/
  | close
  /-- Fails. -/
  | panic
  /-- Puts a row into the repository. -/
  | insertRow (row : Storage.Row)
  | edit (p : Part) (e : p.feature.Edit)
  /-- Publishes an update of the scenario's own. -/
  | publish (p : Part) (x : Publication p.feature.State)
  /-- Asks for a call; with a reply it is answered at once. -/
  | ask (p : Part) (a : p.feature.Ask) (reply : Option Reply)
  /-- Answers a call in flight. -/
  | resolve (call : CallName) (reply : Reply)
  /-- Gives a call in flight up. -/
  | cancel (call : CallName)
  /-- Keeps the document as it is. -/
  | hold (name : String)
  /-- Looks at a document that was kept. -/
  | held (name : String)
  /-- Takes a guard. -/
  | guard (name : String) (g : Document.Guard)
  /-- Completes a guard. -/
  | complete (name : String) (done : Document.Completion)
  /-- Gives a guard up. -/
  | release (name : String)
  /-- Takes a guard and fails with it. -/
  | panicGuarded (g : Document.Guard)

instance {S : Type} : Inhabited (Deed S) := ⟨.messages⟩

/-- A step with the part that it is on and the word that it goes by. -/
structure Step where
  on : Option Part
  word : String
  deed : Deed Step

instance : Inhabited Step := ⟨⟨none, "", default⟩⟩

/-- What a step returns. -/
inductive Outcome where
  | nothing
  | flag (b : Bool)
  | number (n : Nat)
  | text (s : String)
  /-- The value of a projection. -/
  | value (v : Json)
  /-- The document that was kept. -/
  | kept (v : Json)
  /-- The state of a part. -/
  | state (version : Nat) (v : Json)
  | messages (texts : List String)
  | settings (s : Settings)
  /-- The call is in flight. -/
  | pending (n : Nat)
  | answered (p : Part) (a : Answer p.feature)
  | unknownName
  | unknownCall
  /-- The desk is closed. -/
  | closed
  /-- The row is not one that the table takes. -/
  | constraint
  | panic

/-- What a step shows. -/
inductive Event where
  /-- A subscriber's code was called. -/
  | called (name : String) (value : Json)
  /-- A subscriber's code took a step. -/
  | reacted (name word : String) (outcome : Outcome)
  /-- A request reached a backend; the repository does not number its own. -/
  | requested (number : Option Nat) (p : Part) (r : p.feature.Request)
  | notified (text : String)
  | logged (entry : LogEntry)

end LiveDesk.Scenario
