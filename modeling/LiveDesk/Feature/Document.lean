import LiveDesk.Feature.Session
import LiveDesk.View

/-!
# A plain document

The smallest store: a document with a counter, a title, items and a busy mark, edited directly. A
caller can hold a guard, which raises the busy mark or a depth count while it is held; completing
the guard stores a patch in the same snapshot that lowers the flag.

- `Document.feature`: the edits, and guards as calls that no backend answers.
- `Document.views`: the projections.
-/

namespace LiveDesk.Document

open Observable

/-- The document. -/
structure State where
  count : Int
  title : String
  items : List String
  busy : Bool
  deriving DecidableEq, Repr, Inhabited

namespace State

/-- The document as a value. -/
def toJson (s : State) : Json :=
  .record [("count", .int s.count), ("title", .text s.title), ("items", .ofTexts s.items),
    ("busy", .bool s.busy)]

end State

/-- New values for some parts of a document. -/
structure Patch where
  count : Option Int
  title : Option String
  items : Option (List String)
  busy : Option Bool
  deriving DecidableEq, Repr, Inhabited

namespace Patch

/-- The document with the given parts replaced. -/
def apply (p : Patch) (s : State) : State :=
  { count := p.count.getD s.count
    title := p.title.getD s.title
    items := p.items.getD s.items
    busy := p.busy.getD s.busy }

end Patch

/-- An edit in place. -/
inductive Amendment where
  | noop
  | add (n : Int)
  | push (item : String)
  | pop
  | append (text : String)
  deriving DecidableEq, Repr

namespace Amendment

/-- The document after the edit. -/
def apply : Amendment → State → State
  | .noop, s => s
  | .add n, s => { s with count := s.count + n }
  | .push item, s => { s with items := s.items ++ [item] }
  | .pop, s => { s with items := s.items.dropLast }
  | .append text, s => { s with title := s.title ++ text }

end Amendment

/-- The edits, each with the label under which it is logged. -/
inductive Edit where
  | next (patch : Patch) (label : String)
  | amend (a : Amendment) (label : String)
  | resetWith (patch : Patch) (label : String)
  deriving Repr

/-- What a guard raises. -/
inductive Guard where
  | busy
  | depth
  deriving DecidableEq, Repr

/-- What a guard stores when it is completed. -/
structure Completion where
  patch : Patch
  label : String
  deriving Repr

/-- The flag of a guard. -/
def flag : Guard → Flag State
  | .busy =>
    { raise := fun s => { s with busy := true }, lower := fun s => { s with busy := false },
      label := "busy:end" }
  | .depth =>
    { raise := fun s => { s with count := s.count + 1 },
      lower := fun s => { s with count := s.count - 1 }, label := "depth:end" }

/-- What an edit publishes. -/
def edit : Edit → Publication State
  | .next patch label => ⟨.update patch.apply, label⟩
  | .amend a label => ⟨.update a.apply, label⟩
  | .resetWith patch label => ⟨.reset patch.apply, label⟩

/-- The document. -/
def feature : Feature where
  name := "doc"
  State := State
  Edit := Edit
  Ask := Guard
  Call := Guard
  Request := Guard
  Payload := Completion
  Value := Unit
  Refusal := Empty
  edit e _ := some (edit e)
  answer _ _ := none
  accept g _ := .proceed g
  prelude _ _ := none
  opening _ := none
  flag := flag
  request g := g
  settle _ done _ := some (.store done.patch.apply done.label none none ())
  failure _ _ := none
  describe := nofun

/-- The projections of the document. -/
def views : List (String × Recipe State) :=
  [("count", .direct fun s => .json (.int s.count)),
    ("title", .direct fun s => .json (.text s.title)),
    ("items", .direct fun s => .json (.ofTexts s.items)),
    ("len", .direct fun s => .json (.ofNat s.items.length)),
    ("busy", .direct fun s => .json (.bool s.busy)),
    ("state", .direct fun s => .json s.toJson),
    ("constant", .direct fun _ => .json (.text "same"))]

end LiveDesk.Document
