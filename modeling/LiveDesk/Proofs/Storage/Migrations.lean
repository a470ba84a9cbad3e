import Mathlib.Data.List.Basic
import LiveDesk.Storage.Database

/-!
# Migrations as a whole

The pending migrations are executed in one transaction. The engine takes their statements one after
the other, or stops at the first one that it refuses; then nothing is left of those before.

- `Runs`, `Stops`: the engine takes all statements, or refuses one of them.
- `Keeps`: what was in a database is there as it was; a statement adds to it at most.
- `executeAll_working`, `runAll_working`: what the statements of a transaction do to the connection:
  they never touch the stored database.
- `Updated`: all that comes of bringing a schema up to date, one constructor per case
  (`updated_idle`).
- **`all_or_nothing`**: which databases can be brought up to date and what becomes of them.
- `all_or_nothing_half`: a batch of which the first migration has run when the second one fails.
-/

namespace LiveDesk.Storage

/-! ## Statements -/

/-- The engine takes the statements one after the other. -/
inductive Runs : Database → List Statement → Database → Prop
  | nil (d : Database) : Runs d [] d
  | cons {d d' d'' : Database} {s : Statement} {rest : List Statement} (head : s.run? d = some d')
      (tail : Runs d' rest d'') : Runs d (s :: rest) d''

/-- The engine refuses one of the statements, when those before it have led to `mid`. -/
inductive Stops : Database → List Statement → Database → Prop
  | intro {d mid : Database} {before later : List Statement} {s : Statement}
      (ran : Runs d before mid) (refused : s.run? mid = none) :
      Stops d (before ++ s :: later) mid

/-- What was in the database is there as it was: its tables with all their rows, its views and its
indexes. -/
structure Keeps (d d' : Database) : Prop where
  tables : d.tables <+: d'.tables
  views : d'.views = d.views
  indexes : d.indexes <+: d'.indexes

theorem Keeps.refl (d : Database) : Keeps d d :=
  ⟨List.prefix_rfl, rfl, List.prefix_rfl⟩

theorem Keeps.trans {d d' d'' : Database} (h : Keeps d d') (h' : Keeps d' d'') : Keeps d d'' :=
  ⟨h.tables.trans h'.tables, h'.views.trans h.views, h.indexes.trans h'.indexes⟩

/-- A table is found as it was. -/
theorem Keeps.table? {d d' : Database} (h : Keeps d d') {name : String} {t : Table}
    (ht : d.table? name = some t) : d'.table? name = some t := by
  obtain ⟨added, hadded⟩ := h.tables
  rw [Database.table?] at ht ⊢
  rw [← hadded, List.find?_append, ht]
  rfl

/-- A statement adds to a database at most. -/
theorem Statement.keeps {s : Statement} {d d' : Database} (h : s.run? d = some d') :
    Keeps d d' := by
  cases s with
  | createTable name columns =>
    simp only [run?, Database.addTable] at h
    split at h
    · cases h
      exact .refl d
    · split at h
      · cases h
      · cases h
        exact ⟨List.prefix_append .., rfl, List.prefix_rfl⟩
  | createIndex name table columns =>
    simp only [run?] at h
    split at h
    · cases h
    · split at h
      · cases h
      · split at h
        · cases h
          exact .refl d
        · split at h
          · cases h
            exact ⟨List.prefix_rfl, rfl, List.prefix_append ..⟩
          · cases h
  | setVersion version =>
    simp only [run?, Option.some.injEq] at h
    subst h
    exact ⟨List.prefix_rfl, rfl, List.prefix_rfl⟩

theorem Runs.keeps {d d' : Database} {ss : List Statement} (h : Runs d ss d') : Keeps d d' := by
  induction h with
  | nil d => exact .refl d
  | cons head _ ih => exact (Statement.keeps head).trans ih

theorem Runs.eq_of_nil {d d' : Database} (h : Runs d [] d') : d' = d := by
  cases h with
  | nil => rfl

theorem Runs.append {d mid d' : Database} {ss rest : List Statement} (h : Runs d ss mid)
    (hrest : Runs mid rest d') : Runs d (ss ++ rest) d' := by
  induction h with
  | nil d => exact hrest
  | cons head _ ih => exact .cons head (ih hrest)

theorem runs_append {d d' : Database} {ss rest : List Statement} :
    Runs d (ss ++ rest) d' ↔ ∃ mid, Runs d ss mid ∧ Runs mid rest d' := by
  refine ⟨fun h => ?_, fun ⟨mid, hss, hrest⟩ => hss.append hrest⟩
  induction ss generalizing d with
  | nil => exact ⟨d, .nil d, h⟩
  | cons s ss ih =>
    cases h with
    | cons head tail =>
      obtain ⟨mid, hss, hrest⟩ := ih tail
      exact ⟨mid, .cons head hss, hrest⟩

/-- The engine leaves nothing to chance. -/
theorem Runs.unique {d d₁ d₂ : Database} {ss : List Statement} (h₁ : Runs d ss d₁)
    (h₂ : Runs d ss d₂) : d₁ = d₂ := by
  induction h₁ with
  | nil d =>
    cases h₂ with
    | nil => rfl
  | cons head _ ih =>
    cases h₂ with
    | cons head' tail' =>
      cases Option.some.inj (head.symm.trans head')
      exact ih tail'

theorem Stops.not_runs {d mid d' : Database} {ss : List Statement} (h : Stops d ss mid) :
    ¬ Runs d ss d' := by
  intro hruns
  cases h with
  | intro ran refused =>
    obtain ⟨mid', hbefore, hrest⟩ := runs_append.mp hruns
    cases hrest with
    | cons head =>
      rw [← ran.unique hbefore, refused] at head
      cases head

/-- Behind its statements a migration sets the number of the schema. -/
theorem version_of_runs_script {d d' : Database} {ss : List Statement} {m : Migration}
    (h : Runs d (ss ++ m.script) d') : d'.version = storedVersion m.version := by
  rw [Migration.script, ← List.append_assoc] at h
  obtain ⟨mid, -, hset⟩ := runs_append.mp h
  cases hset with
  | cons head tail =>
    simp only [Statement.run?, Option.some.injEq] at head
    subst head
    rw [tail.eq_of_nil]

/-! ## Statements of a transaction -/

/-- The statements of migrations, in their order. -/
def scripts (ms : List Migration) : List Statement :=
  ms.flatMap Migration.script

theorem scripts_append (ms later : List Migration) :
    scripts (ms ++ later) = scripts ms ++ scripts later :=
  List.flatMap_append

theorem scripts_cons (m : Migration) (ms : List Migration) :
    scripts (m :: ms) = m.script ++ scripts ms :=
  List.flatMap_cons

theorem scripts_singleton (m : Migration) : scripts [m] = m.script :=
  List.flatMap_singleton ..

namespace Connection

/-- In a transaction a statement works on the copy. -/
theorem execute?_working (d w : Database) (s : Statement) :
    execute? ⟨d, some w⟩ s = (s.run? w).map fun w' => ⟨d, some w'⟩ := rfl

/-- Statements of a transaction are all run on the copy, or it is left where one was refused. -/
theorem executeAll_working (d w : Database) (ss : List Statement) :
    (∃ w', Runs w ss w' ∧ executeAll ⟨d, some w⟩ ss = (⟨d, some w'⟩, true)) ∨
      ∃ mid, Stops w ss mid ∧ executeAll ⟨d, some w⟩ ss = (⟨d, some mid⟩, false) := by
  induction ss generalizing w with
  | nil => exact .inl ⟨w, .nil w, rfl⟩
  | cons s ss ih =>
    rw [executeAll, execute?_working]
    cases hs : s.run? w with
    | none =>
      have hstops : Stops w ([] ++ s :: ss) w := .intro (.nil w) hs
      exact .inr ⟨w, hstops, rfl⟩
    | some w' =>
      rcases ih w' with ⟨w'', hruns, hall⟩ | ⟨mid, hstops, hall⟩
      · exact .inl ⟨w'', .cons hs hruns, hall⟩
      · cases hstops with
        | intro ran refused => exact .inr ⟨mid, .intro (.cons hs ran) refused, hall⟩

/-- Migrations of a transaction are all run on the copy, or it is left where one of them failed.
Either way the stored database is as it was. -/
theorem runAll_working (d w : Database) (ms : List Migration) :
    (∃ w', Runs w (scripts ms) w' ∧ runAll ⟨d, some w⟩ ms = (⟨d, some w'⟩, .ok ())) ∨
      ∃ before m later w' mid, ms = before ++ m :: later ∧ Runs w (scripts before) w' ∧
        Stops w' m.script mid ∧
        runAll ⟨d, some w⟩ ms = (⟨d, some mid⟩, .error (.migration m.version)) := by
  induction ms generalizing w with
  | nil => exact .inl ⟨w, .nil w, rfl⟩
  | cons m ms ih =>
    rw [runAll]
    rcases executeAll_working d w m.script with ⟨w', hscript, hall⟩ | ⟨mid, hstops, hall⟩
    · rw [hall]
      rcases ih w' with
        ⟨w'', hruns, hrest⟩ | ⟨before, m', later, w'', mid, rfl, hruns, hstops, hrest⟩
      · exact .inl ⟨w'', scripts_cons m ms ▸ hscript.append hruns, hrest⟩
      · exact .inr ⟨m :: before, m', later, w'', mid, rfl,
          scripts_cons m before ▸ hscript.append hruns, hstops, hrest⟩
    · rw [hall]
      exact .inr ⟨[], m, ms, w, mid, rfl, .nil w, hstops, rfl⟩

/-- On an error the connection is as it was, its transaction included, if there is one. -/
theorem update_error {c : Connection} {e : DatabaseError} (h : c.update.2.1 = .error e) :
    c.update.1 = c := by
  unfold update at h ⊢
  dsimp only at h ⊢
  split
  · rfl
  · rename_i hrange
    rw [if_neg hrange] at h
    split
    · rfl
    · rename_i hold
      rw [if_neg hold] at h
      split
      · rfl
      · rename_i hpending
        rw [if_neg hpending] at h
        -- a transaction that is open already lets no other one begin
        obtain ⟨d, working⟩ := c
        cases working with
        | some w => rfl
        | none =>
          simp only [begin?] at h ⊢
          rcases runAll_working d d _ with ⟨w, -, hall⟩ | ⟨_, m, _, _, mid, -, -, -, hall⟩
          · rw [hall] at h
            cases h
          · rw [hall]
            rfl

end Connection

/-! ## Pending migrations -/

/-- The migrations to a newer schema than that of the database. -/
def pending (d : Database) : List Migration :=
  migrations.filter fun m => d.version.toInt < m.version

/-- The migrations are in the order of their versions, so the pending ones are. -/
theorem ascending_migrations : migrations.Pairwise fun m m' => m.version < m'.version := by decide

theorem ascending_pending (d : Database) :
    (pending d).Pairwise fun m m' => m.version < m'.version :=
  ascending_migrations.filter _

theorem mem_pending {d : Database} {m : Migration} :
    m ∈ pending d ↔ m ∈ migrations ∧ d.version.toInt < m.version := by
  simp [pending]

theorem version_le_latest : ∀ m ∈ migrations, m.version ≤ latestVersion := by decide

theorem toInt_storedVersion_latest : (storedVersion latestVersion).toInt = latestVersion := by
  decide

theorem pending_eq_nil {d : Database} (h : latestVersion ≤ d.version.toInt) : pending d = [] := by
  refine List.filter_eq_nil_iff.mpr fun m hm => ?_
  have hle := version_le_latest m hm
  simp only [decide_eq_true_eq]
  omega

/-- The last migration is pending whenever one is. -/
theorem exists_pending {d : Database} (h : d.version.toInt < latestVersion) :
    ∃ ms m, pending d = ms ++ [m] ∧ m.version = latestVersion := by
  obtain ⟨ms, m, hsplit, hlatest⟩ :
      ∃ ms m, migrations = ms ++ [m] ∧ m.version = latestVersion :=
    ⟨_, _, (List.dropLast_append_getLast (List.cons_ne_nil _ _)).symm, rfl⟩
  refine ⟨ms.filter fun m => d.version.toInt < m.version, m, ?_, hlatest⟩
  rw [pending, hsplit, List.filter_append, List.filter_singleton, hlatest]
  simp [h]

/-- Pending migrations that have all run leave the newest schema. -/
theorem version_of_runs_pending {d d' : Database} (h : d.version.toInt < latestVersion)
    (hruns : Runs d (scripts (pending d)) d') : d'.version.toInt = latestVersion := by
  obtain ⟨ms, m, hsplit, hlatest⟩ := exists_pending h
  rw [hsplit, scripts_append, scripts_singleton] at hruns
  rw [version_of_runs_script hruns, hlatest, toInt_storedVersion_latest]

/-! ## Bringing a schema up to date -/

/-- What comes of bringing the schema of a database up to date. -/
inductive Updated (d : Database) : Connection × Except DatabaseError Unit × List LogEntry → Prop
  /-- The number of the schema is none. -/
  | negative (h : d.version.toInt < 0) :
      Updated d (.idle d, .error (.query (.outOfRange d.version.toInt 0)), [])
  | newer (h : latestVersion < d.version.toInt) :
      Updated d (.idle d, .error (.tooNew d.version.toInt.toNat latestVersion), [])
  | current (h : d.version.toInt = latestVersion) : Updated d (.idle d, .ok (), [])
  | migrated {d' : Database} (hfrom : 0 ≤ d.version.toInt) (hto : d.version.toInt < latestVersion)
      (ran : Runs d (scripts (pending d)) d') :
      Updated d (.idle d', .ok (), [migratedEntry d.version.toInt.toNat])
  /-- The migration `m` failed, when those before it had led to `mid`. -/
  | failed {before later : List Migration} {m : Migration} {mid last : Database}
      (hfrom : 0 ≤ d.version.toInt) (hto : d.version.toInt < latestVersion)
      (hpending : pending d = before ++ m :: later) (ran : Runs d (scripts before) mid)
      (stopped : Stops mid m.script last) :
      Updated d (.idle d, .error (.migration m.version), [])

theorem updated_idle (d : Database) : Updated d (Connection.idle d).update := by
  have hlt := d.version.toInt_lt
  unfold Connection.update
  change Updated d (if d.version.toInt < 0 ∨ 0x100000000 ≤ d.version.toInt then _ else _)
  split
  · exact .negative (by omega)
  · dsimp only
    change Updated d (if latestVersion < d.version.toInt.toNat then _ else _)
    split
    · exact .newer (by omega)
    · change Updated d (if d.version.toInt.toNat = latestVersion then _ else _)
      split
      · exact .current (by omega)
      · have hfrom : 0 ≤ d.version.toInt := by omega
        have hto : d.version.toInt < latestVersion := by omega
        have hbegin : (Connection.idle d).begin? = some ⟨d, some d⟩ := rfl
        -- nothing is pending but the migrations beyond the version that is stored
        have hfilter : (migrations.filter fun m =>
            (Connection.idle d).shown.version.toInt.toNat < m.version) = pending d := by
          refine List.filter_congr fun m _ => decide_eq_decide.mpr ?_
          change d.version.toInt.toNat < m.version ↔ _
          omega
        rw [hbegin]
        dsimp only
        rw [hfilter]
        rcases Connection.runAll_working d d (pending d) with
          ⟨d', hruns, hall⟩ | ⟨before, m, later, mid, last, hpending, hruns, hstops, hall⟩
        · rw [hall]
          exact .migrated hfrom hto hruns
        · rw [hall]
          exact .failed hfrom hto hpending hruns hstops

/-- Why a schema cannot be brought up to date. -/
inductive Reason (d : Database) : DatabaseError → Prop
  | negative (h : d.version.toInt < 0) : Reason d (.query (.outOfRange d.version.toInt 0))
  | newer (h : latestVersion < d.version.toInt) :
      Reason d (.tooNew d.version.toInt.toNat latestVersion)
  /-- The engine refused a statement of `m`, when the migrations before it had led to `mid`. -/
  | failed {before later : List Migration} {m : Migration} {mid last : Database}
      (hfrom : 0 ≤ d.version.toInt) (hto : d.version.toInt < latestVersion)
      (hpending : pending d = before ++ m :: later) (ran : Runs d (scripts before) mid)
      (stopped : Stops mid m.script last) : Reason d (.migration m.version)

namespace Updated

variable {d : Database} {u : Connection × Except DatabaseError Unit × List LogEntry}

/-- No transaction is left open. -/
theorem eq_idle (h : Updated d u) : u.1 = .idle u.1.stored := by
  cases h <;> rfl

theorem tooNew_iff (h : Updated d u) :
    (∃ found supported, u.2.1 = .error (.tooNew found supported)) ↔
      latestVersion < d.version.toInt := by
  cases h with
  | newer h => exact iff_of_true ⟨_, _, rfl⟩ h
  | negative h => exact iff_of_false (by simp) (by omega)
  | current h => exact iff_of_false (by simp) (by omega)
  | migrated hfrom hto => exact iff_of_false (by simp) (by omega)
  | failed hfrom hto => exact iff_of_false (by simp) (by omega)

theorem query_iff (h : Updated d u) : (∃ f, u.2.1 = .error (.query f)) ↔ d.version.toInt < 0 := by
  cases h with
  | negative h => exact iff_of_true ⟨_, rfl⟩ h
  | newer h => exact iff_of_false (by simp) (by omega)
  | current h => exact iff_of_false (by simp) (by omega)
  | migrated hfrom hto => exact iff_of_false (by simp) (by omega)
  | failed hfrom hto => exact iff_of_false (by simp) (by omega)

theorem ok_iff (h : Updated d u) :
    u.2.1 = .ok () ↔ 0 ≤ d.version.toInt ∧ d.version.toInt ≤ latestVersion ∧
      ∃ d', Runs d (scripts (pending d)) d' := by
  cases h with
  | negative h => exact iff_of_false (by simp) (by omega)
  | newer h => exact iff_of_false (by simp) (by omega)
  | current h =>
    refine iff_of_true rfl ⟨by omega, by omega, d, ?_⟩
    rw [pending_eq_nil (by omega)]
    exact .nil d
  | migrated hfrom hto ran => exact iff_of_true rfl ⟨hfrom, by omega, _, ran⟩
  | failed hfrom hto hpending ran stopped =>
    refine iff_of_false (by simp) ?_
    rintro ⟨-, -, d', hruns⟩
    -- the statements before the refused one have run, so this one would have to run as well
    rw [hpending, scripts_append, scripts_cons] at hruns
    obtain ⟨mid', hbefore, hrest⟩ := runs_append.mp hruns
    obtain ⟨d'', hscript, -⟩ := runs_append.mp (ran.unique hbefore ▸ hrest)
    exact stopped.not_runs hscript

theorem of_ok (h : Updated d u) (hok : u.2.1 = .ok ()) :
    Runs d (scripts (pending d)) u.1.stored ∧ u.1.stored.version.toInt = latestVersion := by
  cases h with
  | negative => cases hok
  | newer => cases hok
  | current h =>
    rw [pending_eq_nil (by omega)]
    exact ⟨.nil d, h⟩
  | migrated hfrom hto ran => exact ⟨ran, version_of_runs_pending hto ran⟩
  | failed => cases hok

theorem of_error (h : Updated d u) {e : DatabaseError} (he : u.2.1 = .error e) : Reason d e := by
  cases h with
  | negative h => cases he; exact .negative h
  | newer h => cases he; exact .newer h
  | current => cases he
  | migrated => cases he
  | failed hfrom hto hpending ran stopped =>
    cases he
    exact .failed hfrom hto hpending ran stopped

end Updated

/-- A schema that is up to date is left alone. -/
theorem attempt_current {d : Database} (h : d.version.toInt = latestVersion) :
    attempt d = (d, .ok (), []) := by
  have hupdated := updated_idle d
  rw [attempt]
  generalize (Connection.idle d).update = u at hupdated
  cases hupdated with
  | current => rfl
  | negative hneg => omega
  | newer hnew => omega
  | migrated _ hto => omega
  | failed _ hto => omega

/-- **A schema is brought up to date as a whole, or not at all.** For every database:

- the pending migrations are those with a higher version, in the order of their versions;
- it is too new exactly if its version is above the latest one, and its version cannot be read
  exactly if it is negative;
- otherwise its schema is up to date afterwards exactly if the engine takes the statements of the
  pending migrations one after the other, each with the one that sets the version. Then these are
  what was executed, the version is the latest one, what was in the database is there as it was, all
  rows of its tables included, and bringing the schema up to date again does nothing;
- on an error the database is as before, whatever had been executed until then, and the error says
  why: for a failed migration, which one it was;
- no transaction is left open. -/
theorem all_or_nothing (d : Database) :
    let after := (attempt d).1
    let outcome := (attempt d).2.1
    let version := d.version.toInt
    ((∀ m, m ∈ pending d ↔ m ∈ migrations ∧ version < m.version) ∧
      (pending d).Pairwise fun m m' => m.version < m'.version) ∧
    ((∃ found supported, outcome = .error (.tooNew found supported)) ↔ latestVersion < version) ∧
    ((∃ f, outcome = .error (.query f)) ↔ version < 0) ∧
    (outcome = .ok () ↔
      0 ≤ version ∧ version ≤ latestVersion ∧ ∃ d', Runs d (scripts (pending d)) d') ∧
    (outcome = .ok () →
      Runs d (scripts (pending d)) after ∧ after.version.toInt = latestVersion ∧
      Keeps d after ∧ (∀ name t, d.table? name = some t → after.table? name = some t) ∧
      attempt after = (after, .ok (), [])) ∧
    (∀ e, outcome = .error e → after = d ∧ Reason d e) ∧
    (Connection.idle d).update.1 = .idle after := by
  intro after outcome version
  have hupdated := updated_idle d
  refine ⟨⟨fun m => mem_pending, ascending_pending d⟩, hupdated.tooNew_iff, hupdated.query_iff,
    hupdated.ok_iff, fun hok => ?_, fun e he => ?_, hupdated.eq_idle⟩
  · obtain ⟨hruns, hversion⟩ := hupdated.of_ok hok
    exact ⟨hruns, hversion, hruns.keeps, fun _ _ => hruns.keeps.table?, attempt_current hversion⟩
  · exact ⟨congrArg Connection.stored (Connection.update_error he), hupdated.of_error he⟩

section Examples

/-- A database of another program, with a table under the name of the index. -/
def foreignDatabase : Database :=
  { Database.empty with
    version := 0
    tables := [⟨"notes", ["x"], [[.text "kept"]]⟩, ⟨"IDX_saved_queries_updated", ["x"], []⟩] }

/-- A database with the first schema and a row in its table. -/
def firstSchema : Database :=
  { Database.empty with
    version := 1
    tables := [⟨savedQueriesTable, savedQueriesColumns,
      [[.text "u", .text "n", .text "s", .int 1, .int 2]]⟩] }

/-- The first migration runs, the second one fails, and nothing is left of the first one. -/
theorem all_or_nothing_half :
    (attempt foreignDatabase).2.1 = .error (.migration 2) ∧
    (attempt foreignDatabase).1 = foreignDatabase ∧
    (attempt firstSchema).2.1 = .ok () ∧ Keeps firstSchema (attempt firstSchema).1 ∧
    attempt (attempt firstSchema).1 = ((attempt firstSchema).1, .ok (), []) := by
  have herror : (attempt foreignDatabase).2.1 = .error (.migration 2) := by rfl
  have hok : (attempt firstSchema).2.1 = .ok () := by rfl
  obtain ⟨-, -, -, -, -, hfailed, -⟩ := all_or_nothing foreignDatabase
  obtain ⟨-, -, -, -, hdone, -⟩ := all_or_nothing firstSchema
  exact ⟨herror, (hfailed _ herror).1, hok, (hdone hok).2.2.1, (hdone hok).2.2.2.2⟩

end Examples

end LiveDesk.Storage
