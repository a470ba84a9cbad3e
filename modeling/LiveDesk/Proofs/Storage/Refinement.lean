import LiveDesk.Proofs.Storage.Rows
import Mathlib.Data.List.Induction
import Mathlib.Logic.Function.Basic

/-!
# The repository as a map

A run of calls is made at the repository over a new database. Each query that is created gets an
identifier and a time from outside: an identifier never comes twice, and the times are any numbers,
so that a later query may be the older one.

**The repository is a map from identifiers to names, specs and times** (`refinement`): at every
call of a run it answers as the map that the calls before it have left (`contents`).

- `Answers` says what the map answers: a query is created as it was given, an identifier is deleted
  if there is something under it, and all entries are listed in their order.
- `Represents` is what a call preserves (`represents_call`): the rows of the table are those of the
  entries. A whole run preserves it by induction from the end (`represents_after`).
- `Saved` reads the same map off the run: what was created and not deleted since
  (`contents_eq_some_iff`).
-/

namespace LiveDesk.Storage

/-! ## Calls -/

/-- A call of the repository. -/
inductive Call where
  /-- The identifier is the next one, and the time is what the clock says, in milliseconds. -/
  | create (id : Uuid) (time : Int64) (name : String) (spec : QuerySpec)
  | delete (id : Uuid)
  | get (id : Uuid)
  | list
  deriving DecidableEq

/-- What the repository returns. -/
inductive Answer where
  | created (query : SavedQuery)
  | deleted
  | got (query? : Option SavedQuery)
  | listed (queries : List SavedQuery)
  deriving DecidableEq

/-- The identifier that a call takes into use. -/
def Call.fresh? : Call → Option Uuid
  | .create id _ _ _ => some id
  | .delete _ | .get _ | .list => none

namespace Repository

/-- The repository after a call, with its answer. -/
def call (r : Repository) : Call → Repository × Except RepositoryError Answer
  | .create id time name spec =>
    match r.create id time name spec with
    | .ok (r, query) => (r, .ok (.created query))
    | .error e => (r, .error e)
  | .delete id =>
    match r.delete id with
    | .ok r => (r, .ok .deleted)
    | .error e => (r, .error e)
  | .get id => (r, .got <$> r.get id)
  | .list => (r, .listed <$> r.list)

/-- The repository after a run of calls. -/
def after (r : Repository) (calls : List Call) : Repository :=
  calls.foldl (fun r c => (r.call c).1) r

/-- The last call is made on what the calls before it left. -/
theorem after_concat (r : Repository) (calls : List Call) (c : Call) :
    r.after (calls ++ [c]) = ((r.after calls).call c).1 := by
  simp [after]

/-- **A call that fails leaves the table as it was.** -/
theorem call_error {r : Repository} {c : Call} {e : RepositoryError}
    (h : (r.call c).2 = .error e) : (r.call c).1 = r := by
  cases c with
  | create id time name spec =>
    simp only [call] at h ⊢
    split at h
    · cases h
    · rfl
  | delete id =>
    simp only [call] at h ⊢
    split at h
    · cases h
    · rfl
  | get id => rfl
  | list => rfl

end Repository

/-- The repository in a database: the rows of its table, by the names of the columns. -/
def Database.savedQueries (d : Database) : Repository :=
  ⟨(d.table? savedQueriesTable).map fun t => t.rows.map fun row =>
    let cell (column : String) : Cell := ((t.columns.zip row).lookup column).getD .null
    { uuid := cell "uuid", name := cell "name", spec := cell "spec_json",
      updatedAt := cell "updated_at" }⟩

/-- A new database has the table, with nothing in it. -/
theorem savedQueries_migrate {d : Database} {log : List LogEntry}
    (hd : migrate .empty = .ok (d, log)) : d.savedQueries = .holding [] := by
  have hrun : (migrate .empty).map (fun done => done.1.savedQueries) = .ok (.holding []) := rfl
  rw [hd] at hrun
  exact Except.ok.inj hrun

/-! ## The map -/

/-- What is saved under an identifier. -/
structure Entry where
  name : String
  spec : QuerySpec
  /-- Milliseconds since 1970. -/
  created : Int64
  deriving DecidableEq

/-- The saved query that an entry is. -/
def Entry.query (e : Entry) (id : Uuid) : SavedQuery :=
  { id, name := e.name, spec := e.spec, updatedAt := e.created }

/-- The entry that a saved query is. -/
def entryOf (q : SavedQuery) : Entry :=
  { name := q.name, spec := q.spec, created := q.updatedAt }

/-- A map from identifiers to what is saved under them. -/
abbrev Contents := Uuid → Option Entry

/-- The map after a call. -/
def Contents.after (m : Contents) : Call → Contents
  | .create id time name spec => Function.update m id (some ⟨name, spec, time⟩)
  | .delete id => Function.update m id none
  | .get _ | .list => m

/-- The map that a run of calls leaves. -/
def contents (calls : List Call) : Contents :=
  calls.foldl Contents.after fun _ => none

/-- The last call acts on the contents that the calls before it left. -/
theorem contents_concat (calls : List Call) (c : Call) :
    contents (calls ++ [c]) = (contents calls).after c := by
  simp [contents]

/-- The list has each entry of the map exactly once. -/
structure Enumerates (queries : List SavedQuery) (m : Contents) : Prop where
  nodup : (queries.map (·.id)).Nodup
  mem_iff : ∀ q, q ∈ queries ↔ m q.id = some (entryOf q)

/-- The rows of the repository are those of the entries. -/
def Represents (r : Repository) (m : Contents) : Prop :=
  ∃ queries, r = .holding queries ∧ Enumerates queries m

/-- What the map answers to a call. -/
def Answers (m : Contents) : Call → Except RepositoryError Answer → Prop
  | .create id time name spec, answer =>
    answer = .ok (.created { id, name, spec, updatedAt := time })
  | .delete id, answer =>
    answer = if (m id).isSome then .ok .deleted else .error (.notFound id)
  | .get id, answer => answer = .ok (.got ((m id).map (·.query id)))
  | .list, answer =>
    ∃ queries, answer = .ok (.listed queries) ∧ queries.Pairwise SavedQuery.Precedes ∧
      Enumerates queries m

/-! ## What one call preserves -/

variable {queries : List SavedQuery} {m : Contents} {r : Repository}

/-- The identifiers in the table are those that the map has an entry for. -/
theorem Enumerates.mem_ids_iff (h : Enumerates queries m) (id : Uuid) :
    id ∈ queries.map (·.id) ↔ (m id).isSome = true := by
  constructor
  · intro hid
    obtain ⟨q, hq, rfl⟩ := List.mem_map.1 hid
    rw [(h.mem_iff q).1 hq]
    rfl
  · intro hid
    obtain ⟨e, he⟩ := Option.isSome_iff_exists.1 hid
    exact List.mem_map.2 ⟨e.query id, (h.mem_iff (e.query id)).2 he, rfl⟩

/-- What the map has no entry for is not in the table. -/
theorem Enumerates.absent (h : Enumerates queries m) {id : Uuid} (hnone : m id = none) :
    id ∉ queries.map (·.id) := by
  rw [h.mem_ids_iff, hnone]
  exact Bool.false_ne_true

/-- What is found in the table is the entry of the map. -/
theorem Enumerates.find? (h : Enumerates queries m) (id : Uuid) :
    queries.find? (·.id = id) = (m id).map (·.query id) := by
  cases hm : m id with
  | none => exact Repository.find?_absent (h.absent hm)
  | some e =>
    have hsome : (queries.find? (·.id = id)).isSome = true := by
      rw [List.find?_isSome]
      exact ⟨e.query id, (h.mem_iff (e.query id)).2 hm, decide_eq_true rfl⟩
    obtain ⟨q, hq⟩ := Option.isSome_iff_exists.1 hsome
    have hid : q.id = id := by simpa using List.find?_some hq
    have hentry : m q.id = some (entryOf q) := (h.mem_iff q).1 (List.mem_of_find?_eq_some hq)
    subst hid
    obtain rfl : e = entryOf q := Option.some.inj (hm.symm.trans hentry)
    exact hq

/-- A saved query is its identifier and its entry. -/
theorem eq_of_entryOf {p q : SavedQuery} (hid : p.id = q.id) (h : entryOf p = entryOf q) :
    p = q := by
  cases p
  cases q
  cases hid
  cases h
  rfl

/-- Creating puts a saved query behind the others and an entry into the map. -/
theorem Enumerates.create (h : Enumerates queries m) {q : SavedQuery} (hnew : m q.id = none) :
    Enumerates (queries ++ [q]) (Function.update m q.id (some (entryOf q))) where
  nodup := by
    rw [List.map_append, List.nodup_append]
    refine ⟨h.nodup, by simp, ?_⟩
    rintro id hid _ hq rfl
    rw [List.map_singleton, List.mem_singleton] at hq
    exact h.absent hnew (hq ▸ hid)
  mem_iff p := by
    rw [List.mem_append, List.mem_singleton, Function.update_apply]
    -- the identifier is new, so none of the saved queries before has it
    by_cases hid : p.id = q.id
    · have hp : p ∉ queries := fun hp => by
        have hentry := (h.mem_iff p).1 hp
        rw [hid, hnew] at hentry
        cases hentry
      rw [if_pos hid]
      constructor
      · rintro (hp' | rfl)
        · exact absurd hp' hp
        · rfl
      · intro hentry
        exact .inr (eq_of_entryOf hid (Option.some.inj hentry).symm)
    · rw [if_neg hid, ← h.mem_iff p]
      constructor
      · rintro (hp | rfl)
        · exact hp
        · exact absurd rfl hid
      · exact .inl

/-- Deleting takes a saved query out of the table and its entry out of the map. -/
theorem Enumerates.delete (h : Enumerates queries m) (id : Uuid) :
    Enumerates (queries.filter (·.id ≠ id)) (Function.update m id none) where
  nodup := h.nodup.sublist (List.filter_sublist.map _)
  mem_iff p := by
    rw [List.mem_filter, decide_eq_true_iff, h.mem_iff p, Function.update_apply]
    by_cases hid : p.id = id
    · simp [hid]
    · simp [hid]

/-- The order of the table does not show in the map. -/
theorem Enumerates.sort (h : Enumerates queries m) :
    Enumerates (queries.mergeSort Row.inOrder) m where
  nodup := ((List.mergeSort_perm queries Row.inOrder).map _).nodup_iff.2 h.nodup
  mem_iff p := by rw [List.mem_mergeSort, h.mem_iff p]

/-- The sorted list is in strict order. -/
theorem pairwise_precedes (h : (queries.map (·.id)).Nodup) :
    (queries.mergeSort Row.inOrder).Pairwise SavedQuery.Precedes := by
  have horder := List.pairwise_mergeSort Row.inOrder_trans Row.inOrder_total queries
  have hids : (queries.mergeSort Row.inOrder).Pairwise fun a b => a.id ≠ b.id :=
    List.pairwise_map.1 (((List.mergeSort_perm queries Row.inOrder).map _).nodup_iff.2 h)
  refine (horder.and hids).imp ?_
  rintro a b ⟨hle, hne⟩
  exact Row.precedes_of_inOrder hle hne

/-- What one call does. -/
theorem represents_call (h : Represents r m) {c : Call} (hfresh : ∀ id ∈ c.fresh?, m id = none) :
    Answers m c (r.call c).2 ∧ Represents (r.call c).1 (m.after c) := by
  obtain ⟨queries, rfl, h⟩ := h
  cases c with
  | create id time name spec =>
    have hnew : m id = none := hfresh id rfl
    have hcreate := Repository.create_holding (q := { id, name, spec, updatedAt := time })
      (h.absent hnew)
    have hcall : (Repository.holding queries).call (.create id time name spec) =
        (.holding (queries ++ [{ id, name, spec, updatedAt := time }]),
          .ok (.created { id, name, spec, updatedAt := time })) := by
      rw [Repository.call, hcreate]
    rw [hcall]
    exact ⟨rfl, _, rfl, h.create hnew⟩
  | delete id =>
    by_cases hid : id ∈ queries.map (·.id)
    · have hcall : (Repository.holding queries).call (.delete id) =
          (.holding (queries.filter (·.id ≠ id)), .ok .deleted) := by
        rw [Repository.call, Repository.delete_present hid]
      rw [hcall]
      exact ⟨(if_pos ((h.mem_ids_iff id).1 hid)).symm, _, rfl, h.delete id⟩
    · have hcall : (Repository.holding queries).call (.delete id) =
          (.holding queries, .error (.notFound id)) := by
        rw [Repository.call, Repository.delete_absent hid]
      have hnone : ¬ (m id).isSome = true := fun hsome => hid ((h.mem_ids_iff id).2 hsome)
      -- deleting what is not there changes neither the table nor the map
      have hsame : m.after (.delete id) = m :=
        Function.update_eq_self_iff.2 (Option.not_isSome_iff_eq_none.1 hnone).symm
      rw [hcall, hsame]
      exact ⟨(if_neg hnone).symm, _, rfl, h⟩
  | get id =>
    refine ⟨?_, queries, rfl, h⟩
    show Answer.got <$> (Repository.holding queries).get id = _
    rw [Repository.get_holding, h.find?]
    rfl
  | list =>
    refine ⟨⟨queries.mergeSort Row.inOrder, ?_, pairwise_precedes h.nodup, h.sort⟩, queries, rfl, h⟩
    show Answer.listed <$> (Repository.holding queries).list = _
    rw [Repository.list_holding]
    rfl

/-- A list of all queries finds the same query under each identifier as a query for it alone. -/
theorem Represents.list_get (h : Represents r m) :
    ∃ queries, r.list = .ok queries ∧ ∀ id, r.get id = .ok (queries.find? (·.id = id)) := by
  obtain ⟨queries, rfl, h⟩ := h
  refine ⟨_, Repository.list_holding queries, fun id => ?_⟩
  rw [Repository.get_holding, h.find?, h.sort.find?]

/-! ## Runs -/

/-- The identifiers that a run takes into use. -/
def freshIds (calls : List Call) : List Uuid :=
  calls.filterMap Call.fresh?

/-- The query was created in the run and not deleted afterwards. -/
def Saved (calls : List Call) (q : SavedQuery) : Prop :=
  ∃ before after, calls = before ++ .create q.id q.updatedAt q.name q.spec :: after ∧
    Call.delete q.id ∉ after

theorem saved_concat {calls : List Call} {c : Call} {q : SavedQuery} :
    Saved (calls ++ [c]) q ↔
      Saved calls q ∧ c ≠ .delete q.id ∨ c = .create q.id q.updatedAt q.name q.spec := by
  constructor
  · rintro ⟨before, after, hsplit, hafter⟩
    rcases List.eq_nil_or_concat after with rfl | ⟨after, d, rfl⟩
    · exact .inr (List.cons.inj (List.append_inj' hsplit rfl).2).1
    · rw [List.concat_eq_append] at hafter hsplit
      have hsplit : calls ++ [c] =
          (before ++ .create q.id q.updatedAt q.name q.spec :: after) ++ [d] := by
        simpa using hsplit
      obtain ⟨rfl, hc⟩ := List.append_inj' hsplit rfl
      obtain rfl : c = d := (List.cons.inj hc).1
      rw [List.mem_append, not_or] at hafter
      have hkept : c ≠ .delete q.id := fun hc => hafter.2 (hc ▸ List.mem_singleton_self _)
      exact .inl ⟨⟨before, after, rfl, hafter.1⟩, hkept⟩
  · rintro (⟨⟨before, after, rfl, hafter⟩, hc⟩ | rfl)
    · refine ⟨before, after ++ [c], by simp, ?_⟩
      simp [hafter, Ne.symm hc]
    · exact ⟨calls, [], rfl, by simp⟩

/-- What is in the table was created under an identifier that the calls name. -/
theorem Saved.mem_freshIds {calls : List Call} {q : SavedQuery} (h : Saved calls q) :
    q.id ∈ freshIds calls := by
  obtain ⟨before, after, rfl, _⟩ := h
  simp [freshIds, Call.fresh?]

theorem freshIds_append (calls more : List Call) :
    freshIds (calls ++ more) = freshIds calls ++ freshIds more :=
  List.filterMap_append

theorem freshIds_nodup_left {calls more : List Call} (h : (freshIds (calls ++ more)).Nodup) :
    (freshIds calls).Nodup :=
  h.sublist ((List.sublist_append_left calls more).filterMap _)

theorem contents_eq_some_iff {calls : List Call} (h : (freshIds calls).Nodup) (q : SavedQuery) :
    contents calls q.id = some (entryOf q) ↔ Saved calls q := by
  induction calls using List.reverseRecOn with
  | nil =>
    constructor
    · intro hentry
      cases hentry
    · rintro ⟨before, after, hsplit, _⟩
      simp at hsplit
  | append_singleton calls c ih =>
    rw [freshIds_append, List.nodup_append] at h
    obtain ⟨hcalls, _, hnew⟩ := h
    have ih := ih hcalls
    rw [contents_concat, saved_concat]
    cases c with
    | create id time name spec =>
      by_cases hid : q.id = id
      · subst hid
        -- the identifier is drawn once, so the query was not saved before
        have hunsaved : ¬ Saved calls q := fun hsaved =>
          hnew _ hsaved.mem_freshIds _ (by simp [freshIds, Call.fresh?]) rfl
        simp [Contents.after, hunsaved, entryOf, and_comm, and_left_comm]
      · simp [Contents.after, hid, ih, Ne.symm hid]
    | delete id =>
      by_cases hid : q.id = id
      · simp [Contents.after, hid]
      · simp [Contents.after, hid, ih, Ne.symm hid]
    | get id => simp [Contents.after, ih]
    | list => simp [Contents.after, ih]

/-- The call is answered by the repository as by the map, and the two stay together. -/
structure Refines (r : Repository) (m : Contents) (c : Call) : Prop where
  /-- The rows before the call. -/
  before : Represents r m
  /-- The rows after the call. -/
  after : Represents (r.call c).1 (m.after c)
  answer : Answers m c (r.call c).2
  /-- A call that fails leaves the table as it is. -/
  unchanged : ∀ e, (r.call c).2 = .error e → (r.call c).1 = r
  /-- A list has the same query under each identifier as a query for it alone. -/
  list_get : ∃ queries, r.list = .ok queries ∧ ∀ id, r.get id = .ok (queries.find? (·.id = id))

/-- The identifiers of a run are new to what the calls before have left. -/
theorem contents_fresh {calls : List Call} {c : Call} (h : (freshIds (calls ++ [c])).Nodup) :
    ∀ id ∈ c.fresh?, contents calls id = none := by
  intro id hid
  rw [freshIds_append, List.nodup_append] at h
  obtain ⟨hcalls, _, hnew⟩ := h
  cases hm : contents calls id with
  | none => rfl
  | some e =>
    have hsaved : Saved calls (e.query id) := (contents_eq_some_iff hcalls (e.query id)).1 hm
    exact absurd rfl (hnew id hsaved.mem_freshIds id (by simpa [freshIds] using hid))

/-- **After any calls, the table represents what the calls make of an empty map.** -/
theorem represents_after (h : Represents r fun _ => none) {calls : List Call}
    (hfresh : (freshIds calls).Nodup) : Represents (r.after calls) (contents calls) := by
  induction calls using List.reverseRecOn with
  | nil => exact h
  | append_singleton calls c ih =>
    rw [Repository.after_concat, contents_concat]
    exact (represents_call (ih (freshIds_nodup_left hfresh)) (contents_fresh hfresh)).2

/-- A new table represents the empty map. -/
theorem represents_nil : Represents (.holding []) fun _ => none := by
  refine ⟨[], rfl, List.nodup_nil, fun q => ?_⟩
  simp

/-- **The repository refines a map from identifiers to names, specs and times.** Over a new
database, after every run of calls that takes no identifier into use twice, the next call is
answered as by the map that the run has left, whatever the clock said; and this map has exactly what
was created and not deleted since. -/
theorem refinement {d : Database} {log : List LogEntry} (hd : migrate .empty = .ok (d, log))
    {calls : List Call} {c : Call} (hfresh : (freshIds (calls ++ [c])).Nodup) :
    Refines (d.savedQueries.after calls) (contents calls) c ∧
      ∀ q, contents calls q.id = some (entryOf q) ↔ Saved calls q := by
  have hcalls : (freshIds calls).Nodup := freshIds_nodup_left hfresh
  have hrows : Represents (d.savedQueries.after calls) (contents calls) :=
    represents_after (savedQueries_migrate hd ▸ represents_nil) hcalls
  obtain ⟨hanswer, hafter⟩ := represents_call hrows (contents_fresh hfresh)
  exact ⟨⟨hrows, hafter, hanswer, fun _ => Repository.call_error, hrows.list_get⟩,
    contents_eq_some_iff hcalls⟩

/-- A run in which the clock goes back and then stands still, at the list that ends it: of three
queries, one with quotes and a control character in its spec, the first is deleted. -/
theorem refinement_backwards :
    ∃ (d : Database) (log : List LogEntry) (calls : List Call),
      calls = [.create (.ofNat 1) 3000 "a" .empty,
        .create (.ofNat 2) 1000 "é" { text := "\"\x01\"", filters := .empty },
        .delete (.ofNat 1), .create (.ofNat 3) 1000 "é" .empty] ∧
      migrate .empty = .ok (d, log) ∧ (freshIds (calls ++ [.list])).Nodup ∧
      Refines (d.savedQueries.after calls) (contents calls) .list ∧
      contents calls (.ofNat 1) = none ∧
      contents calls (.ofNat 2) =
        some ⟨"é", { text := "\"\x01\"", filters := .empty }, 1000⟩ := by
  refine ⟨_, _, _, rfl, rfl, by decide, ?_, by decide, by decide⟩
  exact (refinement rfl (by decide)).1

end LiveDesk.Storage
