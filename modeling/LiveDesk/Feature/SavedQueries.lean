import LiveDesk.Feature.Session
import LiveDesk.View

/-!
# The saved queries

Keeps the user's saved queries, newest first.

- `SavedQueries.feature`: loading, saving and deleting. A name is normalized before it reaches the
  backend, and a blank one is refused.
- `SavedQueries.views`: the projections.
-/

namespace LiveDesk.SavedQueries

open Observable

/-- The saved queries at hand. -/
structure State where
  items : List SavedQuery
  isLoading : Bool
  isLoaded : Bool
  isSaving : Bool
  deriving DecidableEq, Inhabited

namespace State

/-- No queries. -/
def opening : State :=
  { items := [], isLoading := false, isLoaded := false, isSaving := false }

/-- The flags as fields of a value. -/
def flags (s : State) : List (String × Json) :=
  [("is_loading", .bool s.isLoading), ("is_loaded", .bool s.isLoaded),
    ("is_saving", .bool s.isSaving)]

/-- The state as a value. -/
def toJson (s : State) : Json :=
  .record (("items", .list (s.items.map SavedQuery.toJson)) :: s.flags)

/-- The state in short. -/
def summary (s : State) : Json :=
  .record (("items", .ofNat s.items.length) :: s.flags)

end State

/-- What is asked of the backend. -/
inductive Ask where
  /-- All saved queries; only a reload notifies. -/
  | load (reload : Bool)
  | save (name : String) (spec : QuerySpec)
  | delete (id : Uuid)

/-- A call with what it was called with; the name is normalized. -/
inductive Call where
  | load (reload : Bool)
  | save (name : String) (spec : QuerySpec)
  | delete (id : Uuid)
  deriving DecidableEq

/-- A request about saved queries. -/
inductive Request where
  | list
  | create (name : String) (spec : QuerySpec)
  | delete (id : Uuid)
  deriving DecidableEq

/-- An answer to a request. -/
inductive Payload where
  | listed (items : List SavedQuery)
  | created (query : SavedQuery)
  | deleted

/-- Why a query cannot be saved. -/
inductive Refusal where
  | invalidName (name : String)
  deriving DecidableEq, Repr

namespace Refusal

/-- The text that describes a refusal. -/
def description : Refusal → String
  | .invalidName name => "invalid saved query name: `" ++ name ++ "`"

end Refusal

/-- The entries of loading in the log. -/
def loadEntry (level : LogLevel) (status : String) (details : List (String × String)) :
    LogEntry :=
  { level, event := "saved_queries_load", origin := "feature.saved_queries", status, details }

/-- The entries of saving in the log. -/
def saveEntry (level : LogLevel) (status : String) (details : List (String × String)) :
    LogEntry :=
  { level, event := "saved_query_save", origin := "feature.saved_queries", status, details }

/-- The entries of deleting in the log. -/
def deleteEntry (level : LogLevel) (status : String) (id : Uuid)
    (details : List (String × String)) : LogEntry :=
  { level, event := "saved_query_delete", origin := "feature.saved_queries", status,
    details := ("query", id.text) :: details }

/-- The loading flag. -/
def loadingFlag : Flag State where
  raise s := { s with isLoading := true }
  lower s := { s with isLoading := false }
  label := "saved_queries:load:finally"

/-- The saving flag, under the label of the call that raises it. -/
def savingFlag (label : String) : Flag State where
  raise s := { s with isSaving := true }
  lower s := { s with isSaving := false }
  label := label

/-- The items without those of the given identifier. -/
def without (id : Uuid) (items : List SavedQuery) : List SavedQuery :=
  items.filter fun query => query.id ≠ id

/-- The items with a new one in front, and no other one of its identifier. -/
def withFirst (query : SavedQuery) (items : List SavedQuery) : List SavedQuery :=
  query :: without query.id items

/-- What a successful call returns: the query that was saved, or nothing. -/
abbrev Value := Option SavedQuery

/-- What becomes of an answer. -/
def settle : Call → Payload → Option (Settlement State Value)
  | .load reload, .listed items =>
    some (.store (fun s => { s with items, isLoaded := true }) "saved_queries:load:ok"
      (some (loadEntry .info "ok" [("items", toString items.length)]))
      (if reload then some .reloaded else none) none)
  | .save _ _, .created query =>
    some (.store (fun s => { s with items := withFirst query s.items }) "saved_queries:save:ok"
      (some (saveEntry .info "ok" [("query", query.id.text)])) (some .saved) (some query))
  | .delete id, .deleted =>
    some (.store (fun s => { s with items := without id s.items }) "saved_queries:delete:ok"
      (some (deleteEntry .info "ok" id [])) (some .deleted) none)
  | _, _ => none

/-- The saved queries. -/
def feature : Feature where
  name := "saved_queries"
  State := State
  Edit := Empty
  Ask := Ask
  Call := Call
  Request := Request
  Payload := Payload
  Value := Value
  Refusal := Refusal
  edit e _ := e.elim
  answer e _ := e.elim
  accept
    | .load reload, _ => .proceed (.load reload)
    | .save name spec, _ =>
      match normalizeName name with
      | none => .refuse (.invalidName name)
      | some name => .proceed (.save name spec)
    | .delete id, _ => .proceed (.delete id)
  prelude _ _ := none
  opening
    | .load reload => some (loadEntry .info "start" [("reload", toString reload)])
    | .save _ _ | .delete _ => none
  flag
    | .load _ => loadingFlag
    | .save _ _ => savingFlag "saved_queries:save:finally"
    | .delete _ => savingFlag "saved_queries:delete:finally"
  request
    | .load _ => .list
    | .save name spec => .create name spec
    | .delete id => .delete id
  settle c payload _ := settle c payload
  failure
    | .load _, kind => some (loadEntry .warn "error" [("error_kind", kind.name)])
    | .save _ _, kind => some (saveEntry .warn "error" [("error_kind", kind.name)])
    | .delete id, kind => some (deleteEntry .warn "error" id [("error_kind", kind.name)])
  describe := Refusal.description

/-- Reads the answer to a call. -/
def readPayload : Call → Json.Reader Payload
  | .load _ => .listed <$> .list SavedQuery.read
  | .save _ _ => .created <$> SavedQuery.read
  | .delete _ => do
    Json.Reader.nothing
    return .deleted

/-- The names in a list of queries. -/
def namesOf : View → View
  | .queries items => .names (items.map (·.name))
  | _ => .names []

/-- The projections of the list. -/
def views : List (String × Recipe State) :=
  [("items", .direct fun s => .queries s.items),
    ("names", .derived (fun s => .queries s.items) namesOf),
    ("is_loading", .direct fun s => .flag s.isLoading)]

end LiveDesk.SavedQueries
