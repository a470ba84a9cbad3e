import LiveDesk.Journal
import LiveDesk.Scenario.Play
import LiveDesk.Text.Quoted
import LiveDesk.Version

/-!
# The demonstration

A desk with sample data shows that its parts work together: its lists are loaded once, a query is
saved, and what the projections show is printed. A directory given on the command line starts the
log first.

- `Samples`: the data that the backends of the demonstration have.
- `Demonstration.run`: the whole demonstration.
-/

namespace LiveDesk

open Scenario

/-- What the backends of the demonstration have. -/
structure Samples where
  jobs : List Job
  templates : List Template
  fields : List TableField

namespace Samples

/-- The sample data, with identifiers made from random bits. -/
def ofBits (bits : Nat → BitVec 128) : Samples where
  jobs := [.fresh (bits 0) "reindex" .running, .fresh (bits 1) "export" .succeeded]
  templates := [.fresh (bits 2) "welcome" "Hello \x7b\x7b name \x7d\x7d!"]
  fields := [.shown "title" "Title" 0, .shown "updated_at" "Updated" 1]

end Samples

namespace Demonstration

/-- What the demonstration prints, and how it ends. -/
structure Result where
  status : UInt32
  output : String
  complaint : String
  deriving DecidableEq, Repr

/-- A step on a part. -/
def ask (p : Part) (a : p.feature.Ask) (reply : Option Json) : Step :=
  ⟨some p, "ask", .ask p a (reply.map fun v => .ok v.render)⟩

/-- What is done at the desk. -/
def steps (x : Samples) : List Step :=
  [ask .jobs (.load false) (some ((Page.complete x.jobs).toJson Job.toJson)),
    ask .templates (.load false) (some ((Page.complete x.templates).toJson Template.toJson)),
    ask .tableFields (.load "articles" false) (some (.list (x.fields.map TableField.toJson))),
    ask .savedQueries (.save "  running   jobs " .empty) none] ++
  (x.templates.take 1).map fun t =>
    ⟨some .templates, "select", .edit .templates (.select t.id)⟩

/-- How many small steps the demonstration may take for one step. -/
def fuel : Nat := 1000

/-- The desk of the demonstration before the first step. -/
def opening (b : Build) (words : Storage.Wording) : World :=
  match Desk.opening (.default b) with
  | .ok (desk, _) => .opening desk (.default b) (some .empty) words
  | .error _ => .opening .empty (.default b) none words

/-- The world after some steps. -/
def playThrough (w : World) (steps : List Step) : World :=
  steps.foldl (fun w s => (w.play fuel s).1) w

/-- The value of a projection of a state. -/
def viewed {S : Type} (views : List (String × Recipe S)) (name : String) (s : S) : View :=
  match views.lookup name with
  | some (.direct select) => select s
  | some (.derived select next) => next (select s)
  | none => .json .null

/-- The value of a projection of a part. -/
def shown (w : World) (p : Part) (name : String) : View :=
  match w.session? p with
  | some s => viewed p.views name s.state
  | none => .json .null

/-- A value as it is printed: a number, the number of columns, or names in quotes. -/
def printed : View → String
  | .count n => toString n
  | .fields fs => toString fs.length
  | .names names => Text.quoteAll names
  | v => v.toJson.render

/-- What is printed at the end. -/
def lines (w : World) : List String :=
  ["contentdesk_core version=" ++ version,
    "jobs active=" ++ printed (shown w .jobs "active_count"),
    "template placeholders=" ++ printed (shown w .templates "placeholders"),
    "visible fields=" ++ printed (shown w .tableFields "visible_fields"),
    "saved queries=" ++ printed (shown w .savedQueries "names"),
    "notifications=" ++ Text.quoteAll w.messages]

/-- An error as it is printed: its kind, and what it is about in quotes. -/
def complaint : JournalError → String
  | .unsupportedLevel name => "UnsupportedLevel(" ++ Text.quote name ++ ")"
  | .invalidDirectory p => "InvalidDirectory(" ++ Text.quote p.description ++ ")"
  | .conflict c => "Conflict(" ++ Text.quote c.description ++ ")"

/-- Starts the log in the directory that is given, if one is. -/
def startLog (b : Build) (j : Journal) : List String → Except JournalError Unit
  | [] => .ok ()
  | path :: _ => (j.start b.logLevel path).2

/-- The whole demonstration. -/
def run (b : Build) (words : Storage.Wording) (x : Samples) (files : FileTree)
    (args : List String) : Result :=
  match startLog b (.silent files) args with
  | .error e => ⟨1, "", "Error: " ++ complaint e ++ "\n"⟩
  | .ok _ =>
    ⟨0, "".intercalate ((lines (playThrough (opening b words) (steps x))).map (· ++ "\n")), ""⟩

end Demonstration

end LiveDesk
