import LiveDesk.Feature.Session
import LiveDesk.Text.Blank
import LiveDesk.View

/-!
# The table fields

Keeps the columns of one entity's table while the user edits them.

- `TableFields.State`: the entity, its columns in order, and the flags.
- `TableFields.check`: the first reason why columns cannot be saved.
- `TableFields.feature`: loading the columns of an entity, saving them, and the edits. Loading
  another entity starts from a clean state, and an answer for an entity that is no longer current is
  dropped.
- `TableFields.views`: the projections.

Columns are numbered by their place in the list.
-/

namespace LiveDesk.TableFields

open Observable

/-- The columns of one entity's table. -/
structure State where
  entity : Option String
  fields : List TableField
  isLoading : Bool
  isLoaded : Bool
  isSaving : Bool
  /-- There are edits that are not saved. -/
  isDirty : Bool
  deriving DecidableEq, Repr, Inhabited

/-- The edits of the columns. -/
inductive Edit where
  /-- Shows a hidden column or hides a shown one. -/
  | toggle (key : String)
  /-- Moves the column at one place to another place. -/
  | move (source target : Nat)
  deriving Repr

/-- What is asked of the backend. -/
inductive Ask where
  /-- The columns of an entity; only a reload notifies. -/
  | load (entity : String) (reload : Bool)
  | save
  deriving Repr

/-- A call with what it was called with. -/
inductive Call where
  | load (entity : String) (reload : Bool)
  | save (entity : String) (fields : List TableField)
  deriving DecidableEq, Repr

/-- A request for the columns of an entity, or to save them. -/
inductive Request where
  | listFields (entity : String)
  | saveFields (entity : String) (fields : List TableField)
  deriving DecidableEq, Repr

/-- Why columns cannot be saved. -/
inductive Refusal where
  | noEntity
  | invalidKey (key : String)
  | duplicateKey (key : String)
  deriving DecidableEq, Repr

namespace Refusal

/-- The text that describes a refusal. -/
def description : Refusal → String
  | .noEntity => "no entity table loaded"
  | .invalidKey key => "invalid field key: `" ++ key ++ "`"
  | .duplicateKey key => "duplicate field key: `" ++ key ++ "`"

end Refusal

namespace State

/-- No entity. -/
def opening : State :=
  { entity := none, fields := [], isLoading := false, isLoaded := false, isSaving := false,
    isDirty := false }

/-- The flags as fields of a value. -/
def flags (s : State) : List (String × Json) :=
  [("is_loading", .bool s.isLoading), ("is_loaded", .bool s.isLoaded),
    ("is_saving", .bool s.isSaving), ("is_dirty", .bool s.isDirty)]

/-- The state as a value. -/
def toJson (s : State) : Json :=
  .record (("entity", .ofText? s.entity) :: ("fields", .list (s.fields.map TableField.toJson)) ::
    s.flags)

/-- The state in short. -/
def summary (s : State) : Json :=
  .record (("entity", .ofText? s.entity) :: ("fields", .ofNat s.fields.length) :: s.flags)

end State

/-! ## Columns in order -/

/-- The columns numbered from `place` on. -/
def renumberFrom (place : Nat) : List TableField → List TableField
  | [] => []
  | f :: rest => { f with position := UInt32.ofNat place } :: renumberFrom (place + 1) rest

/-- The columns numbered by their place. -/
def renumber (fields : List TableField) : List TableField :=
  renumberFrom 0 fields

/-- The columns ordered by position, equal positions in the order given, and numbered. -/
def arrange (fields : List TableField) : List TableField :=
  renumber (fields.mergeSort fun a b => a.position ≤ b.position)

/-- The columns with the first one of the given key shown or hidden. -/
def toggleFirst (key : String) : List TableField → List TableField
  | [] => []
  | f :: rest =>
    if f.key = key then { f with visible := !f.visible } :: rest else f :: toggleFirst key rest

/-- The columns with the one at `source` taken out and put in at `target`. -/
def moved (source target : Nat) (fields : List TableField) : List TableField :=
  match fields[source]? with
  | none => fields
  | some f => renumber ((fields.eraseIdx source).insertIdx target f)

/-- The first reason why columns cannot be saved, given the keys before them. -/
def checkFrom (seen : List String) : List TableField → Option Refusal
  | [] => none
  | f :: rest =>
    if !TableField.isKey f.key then some (.invalidKey f.key)
    else if f.key ∈ seen then some (.duplicateKey f.key)
    else checkFrom (f.key :: seen) rest

/-- The first reason why columns cannot be saved. -/
def check (fields : List TableField) : Option Refusal :=
  checkFrom [] fields

/-! ## The feature -/

/-- The entries of loading in the log. -/
def loadEntry (level : LogLevel) (status entity : String) (details : List (String × String)) :
    LogEntry :=
  { level, event := "table_fields_load", origin := "feature.table_fields", status,
    details := ("entity", entity) :: details }

/-- The entries of saving in the log. -/
def saveEntry (level : LogLevel) (status entity : String) (details : List (String × String)) :
    LogEntry :=
  { level, event := "table_fields_save", origin := "feature.table_fields", status,
    details := ("entity", entity) :: details }

/-- The loading flag. -/
def loadingFlag : Flag State where
  raise s := { s with isLoading := true }
  lower s := { s with isLoading := false }
  label := "table_fields:load:finally"

/-- The saving flag. -/
def savingFlag : Flag State where
  raise s := { s with isSaving := true }
  lower s := { s with isSaving := false }
  label := "table_fields:save:finally"

/-- What an edit publishes. -/
def edit (s : State) : Edit → Option (Publication State)
  | .toggle key =>
    if s.fields.any fun f => f.key = key then
      some ⟨.update fun s => { s with fields := toggleFirst key s.fields, isDirty := true },
        "table_fields:toggle_visibility"⟩
    else none
  | .move source target =>
    if source < s.fields.length ∧ target < s.fields.length ∧ source ≠ target then
      some ⟨.update fun s => { s with fields := moved source target s.fields, isDirty := true },
        "table_fields:move_field"⟩
    else none

/-- What an edit returns. -/
def answer (s : State) : Edit → Bool
  | .toggle key => s.fields.any fun f => f.key = key
  | .move source target => source < s.fields.length && target < s.fields.length

/-- What becomes of asking for a call. -/
def accept (s : State) : Ask → Admission Call Unit Refusal
  | .load entity reload => .proceed (.load (Text.trim entity) reload)
  | .save =>
    match s.entity with
    | none => .refuse .noEntity
    | some entity =>
      match check s.fields with
      | some refusal => .refuse refusal
      | none => .proceed (.save entity s.fields)

/-- What becomes of an answer. -/
def settle (s : State) : Call → List TableField → Settlement State Unit
  | .load entity reload, fields =>
    if s.entity = some entity then
      .store
        (fun s => { s with fields := arrange fields, isLoaded := true, isDirty := false })
        "table_fields:load:ok"
        (some (loadEntry .info "ok" entity [("fields", toString fields.length)]))
        (if reload then some .reloaded else none) ()
    else .stale (loadEntry .info "stale" entity []) ()
  | .save entity _, fields =>
    .store (fun s => { s with fields := arrange fields, isDirty := false })
      "table_fields:save:ok" (some (saveEntry .info "ok" entity [])) (some .saved) ()

/-- The table fields. -/
def feature : Feature where
  name := "table_fields"
  State := State
  Edit := Edit
  Ask := Ask
  Call := Call
  Request := Request
  Payload := List TableField
  Value := Unit
  Refusal := Refusal
  edit e s := edit s e
  answer e s := some (answer s e)
  accept a s := accept s a
  prelude
    | .load entity _, s =>
      if s.entity = some entity then none
      else some ⟨.reset fun initial => { initial with entity := some entity },
        "table_fields:switch_entity"⟩
    | .save _ _, _ => none
  opening
    | .load entity reload =>
      some (loadEntry .info "start" entity [("reload", toString reload)])
    | .save entity fields =>
      some (saveEntry .info "start" entity [("fields", toString fields.length)])
  flag
    | .load _ _ => loadingFlag
    | .save _ _ => savingFlag
  request
    | .load entity _ => .listFields entity
    | .save entity fields => .saveFields entity fields
  settle c fields s := some (settle s c fields)
  failure
    | .load entity _, kind => some (loadEntry .warn "error" entity [("error_kind", kind.name)])
    | .save entity _, kind => some (saveEntry .warn "error" entity [("error_kind", kind.name)])
  describe := Refusal.description

/-- Reads the answer to a call. -/
def readPayload (_ : Call) : Json.Reader (List TableField) := .list TableField.read

/-- The columns that are shown. -/
def visibleOnly : View → View
  | .fields fields => .fields (fields.filter (·.visible))
  | _ => .fields []

/-- The projections of the columns. -/
def views : List (String × Recipe State) :=
  [("fields", .direct fun s => .fields s.fields),
    ("visible_fields", .derived (fun s => .fields s.fields) visibleOnly),
    ("is_dirty", .direct fun s => .flag s.isDirty),
    ("is_saving", .direct fun s => .flag s.isSaving),
    ("is_loading", .direct fun s => .flag s.isLoading)]

end LiveDesk.TableFields
