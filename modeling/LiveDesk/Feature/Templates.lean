import LiveDesk.Feature.Session
import LiveDesk.View

/-!
# The templates

Keeps the list of templates with the selected one.

- `Templates.State`: the list, the selection, and what the user may do.
- `Templates.feature`: loading the list, refreshing the selected template, and the selection.
- `Templates.views`: the projections of the list.

The selection names a template of the list; a load that no longer has it clears it.
-/

namespace LiveDesk.Templates

open Observable

/-- The templates at hand. -/
structure State where
  items : List Template
  selected : Option Uuid
  permissions : Permissions
  isLoading : Bool
  isLoaded : Bool
  deriving DecidableEq, Repr, Inhabited

namespace State

/-- No templates. -/
def opening : State :=
  { items := [], selected := none, permissions := .nothing, isLoading := false,
    isLoaded := false }

/-- Whether a template with the given identifier is in the list. -/
def knows (s : State) (id : Uuid) : Bool :=
  s.items.any fun t => t.id = id

/-- The selected template. -/
def selectedTemplate? (s : State) : Option Template :=
  s.selected.bind fun id => s.items.find? fun t => t.id = id

/-- The selection as a value. -/
def selectedJson (s : State) : Json :=
  (s.selected.map Uuid.toJson).getD .null

/-- The state as a value. -/
def toJson (s : State) : Json :=
  .record [("items", .list (s.items.map Template.toJson)), ("selected", s.selectedJson),
    ("permissions", s.permissions.toJson), ("is_loading", .bool s.isLoading),
    ("is_loaded", .bool s.isLoaded)]

/-- The state in short. -/
def summary (s : State) : Json :=
  .record [("items", .ofNat s.items.length), ("selected", s.selectedJson),
    ("is_loading", .bool s.isLoading), ("is_loaded", .bool s.isLoaded)]

end State

/-- The edits of the selection. -/
inductive Edit where
  /-- Selects a template of the list. -/
  | select (id : Uuid)
  | clearSelection
  deriving Repr

/-- What is asked of the backend. -/
inductive Ask where
  /-- All templates; only a reload notifies. -/
  | load (reload : Bool)
  /-- The selected template. -/
  | refresh
  deriving Repr

/-- A call with what it was called with. -/
inductive Call where
  | load (reload : Bool)
  | refresh (id : Uuid)
  deriving DecidableEq, Repr

/-- A request for all templates or for one. -/
inductive Request where
  | listTemplates
  | getTemplate (id : Uuid)
  deriving DecidableEq, Repr

/-- All templates or one. -/
inductive Payload where
  | page (page : Page Template)
  | template (t : Template)

/-- The entries of loading in the log. -/
def loadEntry (level : LogLevel) (status : String) (details : List (String × String)) :
    LogEntry :=
  { level, event := "templates_load", origin := "feature.templates", status, details }

/-- The loading flag. -/
def flag (label : String) : Flag State where
  raise s := { s with isLoading := true }
  lower s := { s with isLoading := false }
  label := label

/-- What an edit publishes. -/
def edit (s : State) : Edit → Option (Publication State)
  | .select id =>
    if s.knows id then some ⟨.update fun s => { s with selected := some id }, "templates:select"⟩
    else none
  | .clearSelection =>
    some ⟨.update fun s => { s with selected := none }, "templates:clear_selection"⟩

/-- The state with a loaded list; a selection that is not in it is cleared. -/
def store (page : Page Template) (s : State) : State :=
  { s with
    selected := s.selected.filter fun id => page.items.any fun t => t.id = id
    items := page.items
    permissions := page.permissions
    isLoaded := true }

/-- The list with the first template of the same identifier replaced. -/
def replaceFirst (fresh : Template) : List Template → List Template
  | [] => []
  | t :: rest => if t.id = fresh.id then fresh :: rest else t :: replaceFirst fresh rest

/-- What becomes of an answer. -/
def settle : Call → Payload → Option (Settlement State Unit)
  | .load reload, .page page =>
    some (.store (store page) "templates:load:ok"
      (some (loadEntry .info "ok" [("items", toString page.items.length)]))
      (if reload then some .reloaded else none) ())
  | .refresh _, .template fresh =>
    some (.store (fun s => { s with items := replaceFirst fresh s.items })
      "templates:refresh:ok" none none ())
  | _, _ => none

/-- The templates. -/
def feature : Feature where
  name := "templates"
  State := State
  Edit := Edit
  Ask := Ask
  Call := Call
  Request := Request
  Payload := Payload
  Value := Unit
  Refusal := Empty
  edit e s := edit s e
  answer
    | .select id, s => some (s.knows id)
    | .clearSelection, _ => none
  accept
    | .load reload, _ => .proceed (.load reload)
    | .refresh, s =>
      match s.selected with
      | none => .done ()
      | some id => .proceed (.refresh id)
  prelude _ _ := none
  opening
    | .load reload => some (loadEntry .info "start" [("reload", toString reload)])
    | .refresh _ => none
  flag
    | .load _ => flag "templates:load:finally"
    | .refresh _ => flag "templates:refresh:finally"
  request
    | .load _ => .listTemplates
    | .refresh id => .getTemplate id
  settle c payload _ := settle c payload
  failure
    | .load _, kind => some (loadEntry .warn "error" [("error_kind", kind.name)])
    | .refresh id, kind => some
      { level := .warn, event := "templates_refresh", origin := "feature.templates",
        status := "error", details := [("template", id.text), ("error_kind", kind.name)] }
  describe := nofun

/-- Reads the answer to a call. -/
def readPayload : Call → Json.Reader Payload
  | .load _ => .page <$> Page.read Template.read
  | .refresh _ => .template <$> Template.read

/-- The placeholders of the selected template. -/
def selectedPlaceholders : View → View
  | .template (some t) => .names (Template.placeholders t.body)
  | _ => .names []

/-- The projections of the list. -/
def views : List (String × Recipe State) :=
  [("items", .direct fun s => .templates s.items),
    ("selected_template", .direct fun s => .template s.selectedTemplate?),
    ("placeholders", .derived (fun s => .template s.selectedTemplate?) selectedPlaceholders),
    ("can_edit", .direct fun s => .flag s.permissions.canEdit),
    ("is_loading", .direct fun s => .flag s.isLoading)]

end LiveDesk.Templates
