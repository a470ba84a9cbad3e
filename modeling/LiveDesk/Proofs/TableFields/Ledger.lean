import LiveDesk.Proofs.Session.Deeds
import LiveDesk.Proofs.TableFields.Edits
import LiveDesk.Proofs.TableFields.Ownership

/-!
# What the columns at hand are

The entity is that of the load that was asked for last. Its columns are those of the response that
was installed last since the entity was switched to, and until they are edited they are exactly
these, in order. Edits only hide, show and move columns, and are marked.

- `names`: the keys and labels of columns.
- `arrange_spec`: columns are put in order and numbered, and equal positions keep their order.
- `Ledger`: the entity that was asked for last, and the response that was installed last.
- `Table.Kept`: a table is what the ledger says, up to marked edits.
- **`Table.Kept.note`**: every deed keeps it.
- **`ledger`**: the table after every run, and what leaves it alone.
- `ledger_edited`: an entity that is switched to and back, and an edit of its columns.
-/

namespace LiveDesk.TableFields

open Observable Session

variable {V : Type}

/-! ## Columns in order -/

/-- The keys and labels of columns: all of them but how they are shown. -/
def names (fields : List TableField) : List (String × String) :=
  fields.map fun f => (f.key, f.label)

theorem names_renumberFrom (place : Nat) (fields : List TableField) :
    names (renumberFrom place fields) = names fields := by
  induction fields generalizing place with
  | nil => rfl
  | cons f rest ih => exact congrArg ((f.key, f.label) :: ·) (ih (place + 1))

theorem names_toggleFirst (key : String) (fields : List TableField) :
    names (toggleFirst key fields) = names fields := by
  induction fields with
  | nil => rfl
  | cons f rest ih =>
    rw [toggleFirst]
    by_cases h : f.key = key
    · rw [if_pos h]
      rfl
    · rw [if_neg h]
      exact congrArg ((f.key, f.label) :: ·) ih

/-- A column that is moved to another place of the list stays in it. -/
theorem names_moved {source target : Nat} {fields : List TableField}
    (hsource : source < fields.length) (htarget : target < fields.length) :
    (names (moved source target fields)).Perm (names fields) := by
  have hlength : target ≤ (fields.eraseIdx source).length := by
    rw [List.length_eraseIdx_of_lt hsource]
    omega
  rw [moved, List.getElem?_eq_getElem hsource]
  show (names (renumberFrom 0 _)).Perm _
  rw [names_renumberFrom]
  exact ((List.perm_insertIdx _ _ hlength).trans
    (List.getElem_cons_eraseIdx_perm hsource)).map _

/-- Columns are numbered by their place. -/
theorem renumberFrom_eq_mapIdx (place : Nat) (fields : List TableField) :
    renumberFrom place fields
      = fields.mapIdx fun i f => { f with position := UInt32.ofNat (place + i) } := by
  induction fields generalizing place with
  | nil => rfl
  | cons f rest ih =>
    rw [renumberFrom, ih, List.mapIdx_cons]
    simp only [Nat.add_zero, Nat.add_assoc, Nat.add_comm 1]

theorem position_trans (a b c : TableField) (hab : decide (a.position ≤ b.position) = true)
    (hbc : decide (b.position ≤ c.position) = true) :
    decide (a.position ≤ c.position) = true :=
  decide_eq_true (UInt32.le_trans (of_decide_eq_true hab) (of_decide_eq_true hbc))

theorem position_total (a b : TableField) :
    (decide (a.position ≤ b.position) || decide (b.position ≤ a.position)) = true := by
  simpa using UInt32.le_total a.position b.position

/-- Columns of one position keep their order when they are sorted. -/
theorem filter_mergeSort_position (fields : List TableField) (position : UInt32) :
    (fields.mergeSort fun a b => a.position ≤ b.position).filter (·.position = position)
      = fields.filter (·.position = position) := by
  have hequal : (fields.filter (·.position = position)).Pairwise
      fun a b => decide (a.position ≤ b.position) = true := by
    refine List.pairwise_of_forall_mem_list fun a ha b hb => ?_
    simp only [List.mem_filter, decide_eq_true_eq] at ha hb
    simp [ha.2, hb.2]
  have hsub := (List.sublist_mergeSort position_trans position_total hequal
    List.filter_sublist).filter (·.position = position)
  rw [List.filter_filter] at hsub
  simp only [Bool.and_self] at hsub
  refine (hsub.eq_of_length ?_).symm
  exact ((List.mergeSort_perm fields _).filter _).length_eq.symm

/-- **Columns are put in order**: they are sorted by position, columns of one position keep their
order, and then they are numbered by their place. -/
theorem arrange_spec (fields : List TableField) :
    ∃ sorted : List TableField, sorted.Perm fields ∧
      sorted.Pairwise (fun a b => a.position ≤ b.position) ∧
      (∀ position, sorted.filter (·.position = position)
        = fields.filter (·.position = position)) ∧
      arrange fields = sorted.mapIdx fun i f => { f with position := UInt32.ofNat i } := by
  refine ⟨fields.mergeSort fun a b => a.position ≤ b.position, List.mergeSort_perm _ _, ?_,
    filter_mergeSort_position fields, ?_⟩
  · have hsorted := List.pairwise_mergeSort position_trans position_total fields
    simpa using hsorted
  · rw [arrange, renumber, renumberFrom_eq_mapIdx]
    simp only [Nat.zero_add]

theorem names_arrange (fields : List TableField) :
    (names (arrange fields)).Perm (names fields) := by
  rw [arrange, renumber, names_renumberFrom]
  exact (List.mergeSort_perm fields _).map _

/-! ## The table as an aspect -/

namespace Table

/-- Whether an edit changes anything. -/
def accepts (t : Table) : Edit → Bool
  | .toggle key => t.fields.any fun f => f.key = key
  | .move source target => source < t.fields.length ∧ target < t.fields.length ∧ source ≠ target

/-- What a deed makes of the table. -/
def note (t : Table) : Deed feature → Table
  | .edited e => if t.accepts e then t.edit e else t
  | .asked (.load entity _) =>
    if t.entity = some (Text.trim entity) then t else bare (some (Text.trim entity))
  | .asked .save => t
  | .replied c payload =>
    if Call.isLoad c = true ∧ t.entity ≠ some (Call.entity c) then t else t.install c payload

end Table

/-- An edit publishes something if it is accepted. -/
theorem isSome_edit_eq (x : State) (e : Edit) : (edit x e).isSome = x.table.accepts e := by
  cases e with
  | toggle key =>
    by_cases h : (x.fields.any fun f => f.key = key) = true
    · rw [edit, if_pos h]
      exact h.symm
    · rw [edit, if_neg h]
      exact (Bool.eq_false_iff.mpr h).symm
  | move source target =>
    by_cases h : source < x.fields.length ∧ target < x.fields.length ∧ source ≠ target
    · rw [edit, if_pos h]
      exact (decide_eq_true h).symm
    · rw [edit, if_neg h]
      exact (decide_eq_false h).symm

theorem table_edit (x : State) (e : Edit) :
    (((edit x e).map fun p => p.change.apply .opening x).getD x).table
      = if x.table.accepts e then x.table.edit e else x.table := by
  rw [← isSome_edit_eq]
  cases hedit : edit x e with
  | none => rfl
  | some p => exact congrArg State.table (edit_eq_some hedit _)

/-- A load that is asked for switches to its entity. -/
theorem table_load (x : State) (entity : String) (reload : Bool) :
    (((feature.prelude (.load entity reload) x).map fun p => p.change.apply .opening x).getD
        x).table
      = if x.entity = some entity then x.table else .bare (some entity) := by
  simp only [feature]
  by_cases h : x.entity = some entity
  · rw [if_pos h, if_pos h]
    rfl
  · rw [if_neg h, if_neg h]
    rfl

/-- The table is not touched by the flags. -/
def tableAspect : Aspect feature State.opening Table where
  read := State.table
  note := Table.note
  raise := table_raise
  lower := table_lower
  apply d x := by
    cases d with
    | edited e => exact table_edit x e
    | asked a =>
      cases a with
      | load entity reload => exact table_load x (Text.trim entity) reload
      | save =>
        cases haccept : accept x .save with
        | refuse => exact congrArg State.table (Deed.apply_refuse haccept)
        | done => exact congrArg State.table (Deed.apply_done haccept)
        | proceed c =>
          obtain ⟨entity, -, rfl⟩ := accept_save haccept
          have hasked : feature.accept Ask.save x = .proceed (.save entity x.fields) := haccept
          exact congrArg State.table (Deed.apply_proceed hasked)
    | replied c payload =>
      show ((Deed.replied (F := feature) c payload).apply State.opening x).table
        = if Call.isLoad c = true ∧ x.entity ≠ some (Call.entity c) then x.table
          else x.table.install c payload
      cases hsettle : settle x c payload with
      | store =>
        obtain ⟨hstored, hcurrent⟩ := settle_eq_store hsettle
        rw [if_neg fun h => h.2 (hcurrent h.1)]
        exact (congrArg State.table (Deed.apply_store (congrArg some hsettle))).trans
          (congrArg State.table hstored)
      | stale =>
        rw [if_pos (settle_eq_stale hsettle)]
        exact congrArg State.table (Deed.apply_stale (congrArg some hsettle))

/-! ## The ledger -/

/-- The entity that was asked for last, and the response that was installed last since the entity
was switched to. -/
structure Ledger where
  entity : Option String
  installed : Option (List TableField)

/-- The ledger after a deed: another entity has no response yet, the response to a load is installed
if its entity is the one that was asked for last, and the response to a save is always installed. -/
def Ledger.note (l : Ledger) : Deed feature → Ledger
  | .edited _ | .asked .save => l
  | .asked (.load entity _) =>
    if l.entity = some (Text.trim entity) then l else ⟨some (Text.trim entity), none⟩
  | .replied (.load entity _) payload =>
    if l.entity = some entity then { l with installed := some payload } else l
  | .replied (.save _ _) payload => { l with installed := some payload }

/-- The ledger of a run from the opening state on. -/
def Ledger.of (ds : List (Deed feature)) : Ledger :=
  ds.foldl Ledger.note ⟨none, none⟩

/-- The entity that a load asks for. -/
def load? : Deed feature → Option String
  | .asked (.load entity _) => some entity
  | .asked .save | .edited _ | .replied _ _ => none

theorem Ledger.of_concat (ds : List (Deed feature)) (d : Deed feature) :
    Ledger.of (ds ++ [d]) = (Ledger.of ds).note d :=
  List.foldl_append

/-- The entity is that of the load that was asked for last, without the blanks around it. -/
theorem Ledger.entity_of (ds : List (Deed feature)) :
    (Ledger.of ds).entity = ((ds.filterMap load?).getLast?).map Text.trim := by
  induction ds using List.reverseRecOn with
  | nil => rfl
  | append_singleton ds d ih =>
    rw [Ledger.of_concat, getLast?_filterMap_concat]
    cases d with
    | edited e => exact ih
    | asked a =>
      cases a with
      | save => exact ih
      | load entity reload =>
        show _ = some (Text.trim entity)
        rw [Ledger.note]
        split
        · next h => exact h
        · rfl
    | replied c payload =>
      refine Eq.trans ?_ ih
      cases c with
      | save => rfl
      | load entity reload =>
        rw [Ledger.note]
        split <;> rfl

/-- A table is what the ledger says, up to edits that are marked. -/
structure Table.Kept (t : Table) (l : Ledger) : Prop where
  entity : t.entity = l.entity
  unknown : l.installed = none → t.fields = [] ∧ t.isDirty = false
  clean : ∀ {payload}, l.installed = some payload → t.isDirty = false → t.fields = arrange payload
  named : ∀ {payload}, l.installed = some payload → (names t.fields).Perm (names payload)
  marked : t.isDirty = true → t.fields ≠ []

namespace Table.Kept

variable {t : Table} {l : Ledger}

theorem opening : (Table.bare none).Kept ⟨none, none⟩ where
  entity := rfl
  unknown _ := ⟨rfl, rfl⟩
  clean h := by cases h
  named h := by cases h
  marked h := by cases h

/-- A response is installed. -/
theorem install (h : t.Kept l) (c : Call) (payload : List TableField) :
    (t.install c payload).Kept { l with installed := some payload } where
  entity := h.entity
  unknown hnone := by cases hnone
  clean hsome _ := by
    cases hsome
    rfl
  named hsome := by
    cases hsome
    exact names_arrange payload
  marked hdirty := by cases hdirty

/-- An edit that is accepted keeps the columns but for how they are shown. -/
theorem names_edit {e : Edit} (he : t.accepts e = true) :
    (names (t.edit e).fields).Perm (names t.fields) ∧ t.fields ≠ [] := by
  cases e with
  | toggle key =>
    refine ⟨(names_toggleFirst key t.fields).symm ▸ List.Perm.refl _, ?_⟩
    rintro hnil
    rw [accepts, hnil] at he
    cases he
  | move source target =>
    obtain ⟨hsource, htarget, -⟩ := of_decide_eq_true he
    exact ⟨names_moved hsource htarget, List.ne_nil_of_length_pos (Nat.zero_lt_of_lt hsource)⟩

/-- An edit is marked. -/
theorem edit (h : t.Kept l) {e : Edit} (he : t.accepts e = true) : (t.edit e).Kept l := by
  obtain ⟨hnames, hfields⟩ := names_edit he
  have hdirty : (t.edit e).isDirty = true := by cases e <;> rfl
  refine ⟨?_, fun hnone => absurd (h.unknown hnone).1 hfields, fun _ hclean => ?_,
    fun hsome => hnames.trans (h.named hsome), fun _ hnil => hfields ?_⟩
  · rw [← h.entity]
    cases e <;> rfl
  · rw [hdirty] at hclean
    cases hclean
  · rw [hnil] at hnames
    exact List.map_eq_nil_iff.mp hnames.nil_eq.symm

/-- **Every deed keeps a table as the ledger says.** -/
theorem note (h : t.Kept l) (d : Deed feature) : (t.note d).Kept (l.note d) := by
  cases d with
  | edited e =>
    show Kept (if t.accepts e then t.edit e else t) l
    by_cases he : t.accepts e = true
    · rw [if_pos he]
      exact h.edit he
    · rw [if_neg he]
      exact h
  | asked a =>
    cases a with
    | save => exact h
    | load entity reload =>
      rw [Table.note, Ledger.note, h.entity]
      by_cases hentity : l.entity = some (Text.trim entity)
      · rw [if_pos hentity, if_pos hentity]
        exact h
      · -- nothing is known of another entity
        rw [if_neg hentity, if_neg hentity]
        exact ⟨rfl, fun _ => ⟨rfl, rfl⟩, nofun, nofun, nofun⟩
  | replied c payload =>
    rw [Table.note]
    cases c with
    | save =>
      rw [if_neg fun hlate => nomatch hlate.1]
      exact h.install _ payload
    | load entity reload =>
      rw [Ledger.note]
      -- an answer about another entity comes too late
      by_cases hentity : l.entity = some entity
      · rw [if_pos hentity, if_neg fun hlate => hlate.2 (h.entity.trans hentity)]
        exact h.install _ payload
      · rw [if_neg hentity, if_pos ⟨rfl, fun heq => hentity (h.entity.symm.trans heq)⟩]
        exact h

theorem foldl (h : t.Kept l) (ds : List (Deed feature)) :
    (ds.foldl Table.note t).Kept (ds.foldl Ledger.note l) := by
  induction ds generalizing t l with
  | nil => exact h
  | cons d ds ih => exact ih (h.note d)

end Table.Kept

section Runs

variable [DecidableEq V]

/-- **The ledger.** In every run of the methods of the table fields, with responses to loads and
saves that come, fail or are given up in any order:

- the entity is that of the load that was asked for last, without the blanks around it;
- if no response was installed since the entity was switched to, there are no columns and no marked
  edits;
- otherwise, if no edits are marked, the columns are those of the response, sorted by position, with
  columns of one position in the order of the response, and numbered by their place;
- if edits are marked, there are columns, and they are those of the response up to how they are
  shown;
- a call that fails or is given up, and a response to a load of another entity, leave the table as
  it is; a load only switches to its entity when it is asked for. -/
theorem ledger {ms : List (Session.Move feature V)} (hown : ∀ m ∈ ms, ∀ p, m ≠ .publish p) :
    let start : Session feature V := opening .opening
    let s := start.after ms
    let ds := start.deeds ms
    s.state.entity = ((ds.filterMap load?).getLast?).map Text.trim ∧
      ((Ledger.of ds).installed = none → s.state.fields = [] ∧ s.state.isDirty = false) ∧
      (∀ payload, (Ledger.of ds).installed = some payload →
        (s.state.isDirty = false → ∃ sorted : List TableField, sorted.Perm payload ∧
          sorted.Pairwise (fun a b => a.position ≤ b.position) ∧
          (∀ position, sorted.filter (·.position = position)
            = payload.filter (·.position = position)) ∧
          s.state.fields = sorted.mapIdx fun i f => { f with position := UInt32.ofNat i }) ∧
        (s.state.isDirty = true → s.state.fields ≠ [] ∧
          (s.state.fields.map fun f => (f.key, f.label)).Perm
            (payload.map fun f => (f.key, f.label)))) ∧
      (∀ id, (∀ f, (s.step (.resolve id (.error f))).1.state.table = s.state.table) ∧
        (s.step (.cancel id)).1.state.table = s.state.table) ∧
      (∀ id entity reload payload, s.isFree = true → s.call? id = some (.load entity reload) →
        s.state.entity ≠ some entity →
        (s.step (.resolve id (.ok payload))).1.state.table = s.state.table) ∧
      ∀ entity reload, s.isFree = true →
        (s.step (.ask (Ask.load entity reload))).1.state.table
          = if s.state.entity = some (Text.trim entity) then s.state.table
            else .bare (some (Text.trim entity)) := by
  intro start s ds
  have hinitial : s.store.initial = State.opening := initial_after start ms
  -- the table is what the deeds of the run make of it, one after the other
  have hkept : s.state.table.Kept (Ledger.of ds) := by
    rw [show s.state.table = ds.foldl Table.note (.bare none) from tableAspect.after rfl hown]
    exact Table.Kept.opening.foldl ds
  refine ⟨hkept.entity.trans (Ledger.entity_of ds), hkept.unknown, fun payload hpayload => ⟨?_, ?_⟩,
    tableAspect.unanswered hinitial, ?_, ?_⟩
  · intro hclean
    obtain ⟨sorted, hperm, hsorted, hstable, harrange⟩ := arrange_spec payload
    exact ⟨sorted, hperm, hsorted, hstable, (hkept.clean hpayload hclean).trans harrange⟩
  · exact fun hdirty => ⟨hkept.marked hdirty, hkept.named hpayload⟩
  · intro id entity reload payload hfree hcall hentity
    rw [table_resolve hinitial hfree hcall payload]
    exact if_pos ⟨rfl, hentity⟩
  · intro entity reload hfree
    have hstep := tableAspect.step hinitial (m := .ask (Ask.load entity reload)) (by simp)
    rw [show s.deed? (.ask (Ask.load entity reload)) = some (.asked (Ask.load entity reload)) from
      if_pos hfree] at hstep
    exact hstep

end Runs

section Examples

/-- The author of an article, after the title. -/
def author : TableField :=
  .shown "author" "Author" 1

/-- The columns of articles are left for those of comments, which never come, and asked for again;
then the author is hidden. -/
def revisitedArticles : List (Session.Move feature Nat) :=
  loadArticles ++ [.ask (Ask.load "comments" false)] ++ catchUp ++
    [.ask (Ask.load " articles " false)] ++ catchUp ++ [.resolve 2 (.ok [author, title])] ++
    catchUp ++ [.edit (Edit.toggle "author")]

theorem deeds_revisitedArticles :
    (opening .opening : Session feature Nat).deeds revisitedArticles
      = [.asked (Ask.load "articles" false), .replied (.load "articles" false) [title],
        .asked (Ask.load "comments" false), .asked (Ask.load " articles " false),
        .replied (.load "articles" false) [author, title], .edited (Edit.toggle "author")] := by cbv

theorem installed_revisitedArticles :
    (Ledger.of ((opening .opening : Session feature Nat).deeds revisitedArticles)).installed
      = some [author, title] := by
  rw [deeds_revisitedArticles]
  decide +kernel

theorem state_revisitedArticles :
    ((opening .opening : Session feature Nat).after revisitedArticles).state
      = ⟨some "articles", [title, { author with visible := false }], false, true, false, true⟩ := by
  cbv

/-- The columns are those of the second response, up to the marked edit. -/
theorem ledger_edited :
    let s := (opening .opening : Session feature Nat).after revisitedArticles
    (∀ m ∈ revisitedArticles, ∀ p, m ≠ .publish p) ∧ s.state.entity = some "articles" ∧
      s.state.isDirty = true ∧ s.state.fields ≠ [] ∧
      (s.state.fields.map fun f => (f.key, f.label)).Perm
        [("author", "Author"), ("title", "Title")] := by
  intro s
  have hown : ∀ m ∈ revisitedArticles, ∀ p, m ≠ .publish p := by
    simp [revisitedArticles, loadArticles, catchUp]
  have hdirty : s.state.isDirty = true := congrArg State.isDirty state_revisitedArticles
  obtain ⟨-, -, hinstalled, -⟩ := ledger (V := Nat) hown
  obtain ⟨hfields, hnames⟩ := (hinstalled [author, title] installed_revisitedArticles).2 hdirty
  exact ⟨hown, congrArg State.entity state_revisitedArticles, hdirty, hfields, hnames⟩

end Examples

end LiveDesk.TableFields
