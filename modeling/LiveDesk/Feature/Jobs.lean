import LiveDesk.Feature.Session
import LiveDesk.View

/-!
# The jobs list

Keeps one page of jobs with the filter that describes it.

- `Jobs.State`, `Jobs.State.hasMore`: the page at hand, and whether rows exist behind it.
- `Jobs.feature`: loading the page of the current filter, and the edits of the filter.
- `Jobs.views`: the projections of the list.

A failed load keeps the page. Only reloads notify the user.
-/

namespace LiveDesk.Jobs

open Observable

/-- The page of jobs at hand. -/
structure State where
  items : List Job
  total : UInt64
  filter : JobFilter
  isLoading : Bool
  isLoaded : Bool
  deriving DecidableEq, Repr, Inhabited

namespace State

/-- The empty list with the given page size. -/
def opening (pageSize : UInt32) : State :=
  { items := [], total := 0, filter := .ofPageSize pageSize, isLoading := false,
    isLoaded := false }

/-- Whether rows exist behind the current page. -/
def hasMore (s : State) : Bool :=
  s.filter.offset + UInt64.ofNat s.items.length < s.total

/-- The number of jobs on the page that can still change. -/
def activeCount (items : List Job) : Nat :=
  items.countP fun job => job.status.isActive

/-- The state as a value. -/
def toJson (s : State) : Json :=
  .record [("items", .list (s.items.map Job.toJson)), ("total", .ofNat s.total.toNat),
    ("filter", s.filter.toJson), ("is_loading", .bool s.isLoading),
    ("is_loaded", .bool s.isLoaded)]

/-- The state in short. -/
def summary (s : State) : Json :=
  .record [("page", .ofNat s.filter.page.toNat), ("items", .ofNat s.items.length),
    ("is_loading", .bool s.isLoading), ("is_loaded", .bool s.isLoaded)]

end State

/-- New values for some parts of the state. -/
structure Patch where
  items : Option (List Job)
  total : Option UInt64
  filter : Option JobFilter
  isLoading : Option Bool
  isLoaded : Option Bool
  deriving DecidableEq, Repr, Inhabited

namespace Patch

/-- The state with the given parts replaced. -/
def apply (p : Patch) (s : State) : State :=
  { items := p.items.getD s.items
    total := p.total.getD s.total
    filter := p.filter.getD s.filter
    isLoading := p.isLoading.getD s.isLoading
    isLoaded := p.isLoaded.getD s.isLoaded }

/-- The patch as an update of the caller's own. -/
def publication (p : Patch) (label : String) : Publication State :=
  ⟨.update p.apply, label⟩

end Patch

/-- The edits of the list. -/
inductive Edit where
  /-- Replaces the filter and goes to the first page. -/
  | setFilter (filter : JobFilter)
  /-- Goes to a page. -/
  | setPage (page : UInt32)
  /-- Drops everything that was loaded. -/
  | reset
  deriving Repr

/-- Asks for the page that the filter describes; only a reload notifies. -/
inductive Ask where
  | load (reload : Bool)
  deriving Repr

/-- A load with the filter it was called with. -/
structure Call where
  reload : Bool
  filter : JobFilter
  deriving DecidableEq, Repr

/-- A list request. -/
inductive Request where
  | listJobs (filter : JobFilter)
  deriving DecidableEq, Repr

/-- The entries of the list in the log. -/
def entry (level : LogLevel) (status : String) (details : List (String × String)) : LogEntry :=
  { level, event := "jobs_load", origin := "feature.jobs", status, details }

/-- The loading flag. -/
def flag : Flag State where
  raise s := { s with isLoading := true }
  lower s := { s with isLoading := false }
  label := "jobs:load:finally"

/-- What an edit publishes. -/
def edit : Edit → Publication State
  | .setFilter filter =>
    ⟨.update fun s => { s with filter := { filter with page := 0 } }, "jobs:set_filter"⟩
  | .setPage page =>
    ⟨.update fun s => { s with filter := { s.filter with page } }, "jobs:set_page"⟩
  | .reset => ⟨.reset id, "jobs:reset"⟩

/-- The state with a loaded page. -/
def store (page : Page Job) (s : State) : State :=
  { s with items := page.items, total := page.total, isLoaded := true }

/-- The jobs list. -/
def feature : Feature where
  name := "jobs"
  State := State
  Edit := Edit
  Ask := Ask
  Call := Call
  Request := Request
  Payload := Page Job
  Value := Unit
  Refusal := Empty
  edit e _ := some (edit e)
  answer _ _ := none
  accept
    | .load reload, s => .proceed { reload, filter := s.filter }
  prelude _ _ := none
  opening c := some (entry .info "start"
    [("reload", toString c.reload), ("page", toString c.filter.page),
      ("page_size", toString c.filter.pageSize)])
  flag _ := flag
  request c := .listJobs c.filter
  settle c page _ := some (.store (store page) "jobs:load:ok"
    (some (entry .info "ok"
      [("items", toString page.items.length), ("total", toString page.total)]))
    (if c.reload then some .reloaded else none) ())
  failure _ kind := some (entry .warn "error" [("error_kind", kind.name)])
  describe := nofun

/-- Reads the answer to a call. -/
def readPayload (_ : Call) : Json.Reader (Page Job) := Page.read Job.read

/-- The number of active jobs in a list of jobs. -/
def countActive : View → View
  | .jobs items => .count (State.activeCount items)
  | _ => .count 0

/-- The projections of the list. -/
def views : List (String × Recipe State) :=
  [("items", .direct fun s => .jobs s.items),
    ("total", .direct fun s => .count s.total.toNat),
    ("is_loading", .direct fun s => .flag s.isLoading),
    ("is_loaded", .direct fun s => .flag s.isLoaded),
    ("has_more", .direct fun s => .flag s.hasMore),
    ("active_count", .derived (fun s => .jobs s.items) countActive)]

end LiveDesk.Jobs
