import LiveDesk.Feature.TableFields
import LiveDesk.Proofs.Session.Lives

/-!
# The table of an entity

The flags aside, the table fields hold one table: an entity with its columns, whether they were
loaded, and whether they were edited. Calls change it in two ways only, when another entity is
switched to and when an answer is installed.

- `Table`, `State.table`: a table, and the one that a state holds.
- `Table.turn`: what a turn makes of the table.
- `edit_eq_some`, `prelude_eq_some`, `settle_eq_store`: what an edit and a switch publish, and what
  an answer stores.
- `table_step`, `table_resolve`: every step makes its turn's table; what an answer makes of it.
- **`table_after`**: the table is what the turns of a run make of it.
-/

namespace LiveDesk.TableFields

open Observable Session

variable {V : Type}

/-- A table without the flags of the calls. -/
structure Table where
  entity : Option String
  fields : List TableField
  isLoaded : Bool
  isDirty : Bool

namespace State

/-- The table that a state holds. -/
def table (x : State) : Table :=
  ⟨x.entity, x.fields, x.isLoaded, x.isDirty⟩

/-- The state with another table and the same flags of the calls. -/
def withTable (x : State) (t : Table) : State :=
  { x with entity := t.entity, fields := t.fields, isLoaded := t.isLoaded, isDirty := t.isDirty }

end State

namespace Call

/-- The entity whose columns are asked for or saved. -/
def entity : Call → String
  | .load entity _ | .save entity _ => entity

def isLoad : Call → Bool
  | .load _ _ => true
  | .save _ _ => false

end Call

namespace Table

/-- The table of an entity that nothing is known of. -/
def bare (entity : Option String) : Table :=
  ⟨entity, [], false, false⟩

/-- The table after an edit that is accepted. -/
def edit (t : Table) : Edit → Table
  | .toggle key => { t with fields := toggleFirst key t.fields, isDirty := true }
  | .move source target => { t with fields := moved source target t.fields, isDirty := true }

/-- The table after the answer to a call is installed. -/
def install (t : Table) (c : Call) (payload : List TableField) : Table :=
  { t with fields := arrange payload, isLoaded := t.isLoaded || c.isLoad, isDirty := false }

/-- What a turn makes of the table. An update of the caller's own is left out. -/
def turn (t : Table) : Turn feature → Table
  | .edited e _ => t.edit e
  | .begun _ c _ => bare (some (Call.entity c))
  | .stored _ c payload _ => t.install c payload
  | .idle | .published _ | .declined | .opened _ _ | .raised _ _ | .sent _ _ | .lowered _ _
  | .ended _ | .failed => t

end Table

/-! ## What the feature publishes -/

/-- An edit that is not ignored publishes the edited table. -/
theorem edit_eq_some {x : State} {e : Edit} {p : Publication State} (h : edit x e = some p)
    (initial : State) : p.change.apply initial x = x.withTable (x.table.edit e) := by
  cases e with
  | toggle | move =>
    simp only [edit] at h
    split at h
    · cases h
      rfl
    · cases h

/-- An edit needs a column. -/
theorem fields_ne_nil_of_edit {x : State} {e : Edit} {p : Publication State}
    (h : edit x e = some p) : x.fields ≠ [] := by
  rintro hnil
  cases e with
  | toggle => simp [edit, hnil] at h
  | move => simp [edit, hnil] at h

/-- A switch to another entity takes all flags down. -/
theorem prelude_eq_some {c : Call} {x : State} {p : Publication State}
    (h : feature.prelude c x = some p) :
    p.change.apply .opening x = State.opening.withTable (.bare (some c.entity)) := by
  cases c with
  | load =>
    simp only [feature] at h
    split at h
    · cases h
    · cases h
      rfl
  | save => cases h

/-- The answer to a load is stored for the current entity, the answer to a save for any. -/
theorem settle_eq_store {c : Call} {payload : List TableField} {x : State} {f : State → State}
    {label : String} {entry : Option LogEntry} {notice : Option Notice} {value : Unit}
    (h : settle x c payload = .store f label entry notice value) :
    f x = x.withTable (x.table.install c payload) ∧
      (c.isLoad = true → x.entity = some c.entity) := by
  cases c with
  | load entity reload =>
    simp only [settle] at h
    split at h
    · next hentity =>
      cases h
      exact ⟨by simp [State.withTable, State.table, Table.install, Call.isLoad], fun _ => hentity⟩
    · cases h
  | save =>
    cases h
    exact ⟨by simp [State.withTable, State.table, Table.install, Call.isLoad], nofun⟩

/-- An answer is too late if it is the answer to a load and its entity is not current any more. -/
theorem settle_eq_stale {c : Call} {payload : List TableField} {x : State} {entry : LogEntry}
    {value : Unit} (h : settle x c payload = .stale entry value) :
    c.isLoad = true ∧ x.entity ≠ some c.entity := by
  cases c with
  | load entity reload =>
    simp only [settle] at h
    split at h
    · cases h
    · next hentity => exact ⟨rfl, hentity⟩
  | save => cases h

theorem table_raise (c : Call) (x : State) : ((feature.flag c).raise x).table = x.table := by
  cases c <;> rfl

theorem table_lower (c : Call) (x : State) : ((feature.flag c).lower x).table = x.table := by
  cases c <;> rfl

/-! ## Steps and runs -/

/-- A turn makes of the table what it says. -/
theorem table_of_course {t : Turn feature} {o o' : Outline feature} (h : Course t o o')
    (hinitial : o.initial = State.opening) (hown : ∀ p, t ≠ .published p) :
    o'.state.table = o.state.table.turn t := by
  cases h with
  | idle | declined | sent | ended | failed => rfl
  | edited hedit => exact congrArg State.table (edit_eq_some hedit _)
  | published => exact absurd rfl (hown _)
  | begun _ hprelude =>
    have hswitch := prelude_eq_some hprelude
    rw [← hinitial] at hswitch
    exact congrArg State.table hswitch
  | opened | raised => exact table_raise _ _
  | stored _ hsettle =>
    have hstored := (settle_eq_store (Option.some.inj hsettle)).1
    exact (table_lower _ _).trans (congrArg State.table hstored)
  | lowered => exact table_lower _ _

section Runs

variable [DecidableEq V] {s : Session feature V}

/-- Every step makes its turn's table. -/
theorem table_step (hinitial : s.store.initial = State.opening) {m : Move feature V}
    (hown : ∀ p, m ≠ .publish p) : (s.step m).1.state.table = s.state.table.turn (s.turn m) :=
  table_of_course (s.course m) hinitial fun p h => hown p (eq_publish_of_turn h)

/-- **The table is what the turns of a run make of it.** -/
theorem table_after (hinitial : s.store.initial = State.opening) {ms : List (Move feature V)}
    (hown : ∀ m ∈ ms, ∀ p, m ≠ .publish p) :
    (s.after ms).state.table = (s.turns ms).foldl Table.turn s.state.table := by
  induction ms generalizing s with
  | nil => rfl
  | cons m ms ih =>
    obtain ⟨hm, hms⟩ := List.forall_mem_cons.mp hown
    have hinitial' : (s.step m).1.store.initial = State.opening :=
      (s.course m).state.1.trans hinitial
    rw [after_cons, ih hinitial' hms, table_step hinitial hm]
    rfl

/-- What an answer to a call in flight makes of the table: the answer to a save is installed, and so
is the answer to a load if its entity is current. -/
theorem table_resolve (hinitial : s.store.initial = State.opening) (hfree : s.isFree = true)
    {id : CallId} {c : Call} (hcall : s.call? id = some c) (payload : List TableField) :
    (s.step (.resolve id (.ok payload))).1.state.table =
      if c.isLoad = true ∧ s.state.entity ≠ some c.entity then s.state.table
      else s.state.table.install c payload := by
  have hturn : s.turn (.resolve id (.ok payload)) = answerTurn id c s.state (.ok payload) := by
    rw [turn_of_isFree hfree, freeTurn, hcall]
    rfl
  have hsome : feature.settle c payload s.state = some (settle s.state c payload) := rfl
  rw [table_step hinitial (by simp), hturn]
  cases hsettle : settle s.state c payload with
  | store =>
    rw [if_neg fun h => h.2 ((settle_eq_store hsettle).2 h.1)]
    simp only [answerTurn, hsome, hsettle, Table.turn]
  | stale =>
    rw [if_pos (settle_eq_stale hsettle)]
    simp only [answerTurn, hsome, hsettle, Table.turn]

end Runs

/-! ## Runs to look at -/

/-- The library goes on until the caller's code has control again. -/
def catchUp : List (Session.Move feature Nat) :=
  List.replicate 8 .tick

/-- The title of an article. -/
def title : TableField :=
  .shown "title" "Title" 0

/-- The columns of articles are asked for, and there is only the title. -/
def loadArticles : List (Session.Move feature Nat) :=
  [.ask (Ask.load "articles" false)] ++ catchUp ++ [.resolve 0 (.ok [title])] ++ catchUp

end LiveDesk.TableFields
