import LiveDesk.Proofs.Storage.Entries
import LiveDesk.Proofs.Storage.Order
import LiveDesk.Proofs.Storage.Reading
import LiveDesk.Proofs.Uuid.Spellings

/-!
# What is read from a table

A table may hold rows of other programs, with anything in any of their cells. **A list decodes each
row from its own cells, or it fails with the first thing that is wrong with the first row that is
not well-formed**; no row is left out, and none hides another one (`Repository.table_reads`).

- `Row.Decodes`: the saved query that is in a row.
- `Row.WellFormed`, `Row.Fault`: a row that has a saved query in it, and what is wrong with one that
  has none; the checks come in the order of the constructors.
- `Row.query_eq_ok_iff`, `Row.query_eq_error`: what is in a row is decoded, else the fault is told.
- `Row.mapM_query_eq_error`: rows are read up to the first one that has a fault.
- `Repository.get_eq`: only the row under the written form of an identifier is read.
-/

namespace LiveDesk.Storage

namespace Row

/-- The identifier of a row, in any of its spellings. -/
def HasId (r : Row) (id : Uuid) : Prop :=
  ∃ text, r.uuid = .text text ∧ Uuid.Spells text id

/-- The spec of a row, as a document. -/
def HasSpec (r : Row) (spec : QuerySpec) : Prop :=
  ∃ text, r.spec = .text text ∧ Json.document QuerySpec.read text = .ok spec

/-- The saved query that is in a row. -/
structure Decodes (r : Row) (query : SavedQuery) : Prop where
  id : r.HasId query.id
  spec : r.HasSpec query.spec
  name : r.name = .text query.name
  updatedAt : r.updatedAt = .int query.updatedAt

/-- A row that has a saved query in it. -/
structure WellFormed (r : Row) : Prop where
  id : ∃ id, r.HasId id
  spec : ∃ spec, r.HasSpec spec
  name : ∃ name, r.name = .text name
  updatedAt : ∃ time, r.updatedAt = .int time

/-- The error of a column that holds a cell of another type. -/
def mistyped (c : Cell) (index : Nat) (column : String) : RepositoryError :=
  .database (.query (.columnType c.typeName index column))

/-- The error of a column of texts that holds something else. -/
def notText (c : Cell) (index : Nat) (column : String) : RepositoryError :=
  match c with
  | .garbled _ => .database (.query .engine)
  | c => mistyped c index column

/-- What is wrong with a row: the first check that it does not pass. -/
inductive Fault (r : Row) : RepositoryError → Prop where
  | uuidType : (∀ text, r.uuid ≠ .text text) → Fault r (notText r.uuid 0 "uuid")
  | uuidFormat {text : String} : r.uuid = .text text → (∀ id, ¬ Uuid.Spells text id) →
    Fault r (.invalidData (.identifier text))
  | specType {id : Uuid} : r.HasId id → (∀ text, r.spec ≠ .text text) →
    Fault r (notText r.spec 2 "spec_json")
  | specContent {id : Uuid} {text : String} : r.HasId id → r.spec = .text text →
    (∀ spec, ¬ r.HasSpec spec) → Fault r (.invalidData (.spec id))
  | nameType {id : Uuid} {spec : QuerySpec} : r.HasId id → r.HasSpec spec →
    (∀ text, r.name ≠ .text text) → Fault r (notText r.name 1 "name")
  | timeType {id : Uuid} {spec : QuerySpec} {name : String} : r.HasId id → r.HasSpec spec →
    r.name = .text name → (∀ time, r.updatedAt ≠ .int time) →
    Fault r (mistyped r.updatedAt 3 "updated_at")

variable {r : Row}

/-! ## One row -/

theorem wellFormed_iff : r.WellFormed ↔ ∃ query, r.Decodes query := by
  constructor
  · rintro ⟨⟨id, hid⟩, ⟨spec, hspec⟩, ⟨name, hname⟩, ⟨time, htime⟩⟩
    exact ⟨⟨id, name, spec, time⟩, hid, hspec, hname, htime⟩
  · rintro ⟨query, hid, hspec, hname, htime⟩
    exact ⟨⟨_, hid⟩, ⟨_, hspec⟩, ⟨_, hname⟩, ⟨_, htime⟩⟩

theorem specOf_eq_ok {id : Uuid} {text : String} {spec : QuerySpec} :
    specOf id text = .ok spec ↔ Json.document QuerySpec.read text = .ok spec := by
  rw [specOf]
  cases Json.document QuerySpec.read text <;> simp

/-- What is in a row is read from it. -/
theorem query_eq_ok_iff {query : SavedQuery} : r.query = .ok query ↔ r.Decodes query := by
  rw [query_eq_ok]
  constructor
  · rintro ⟨text, doc, rfl, hid, hspec⟩
    exact ⟨⟨text, rfl, Uuid.parse?_eq_some.mp hid⟩, ⟨doc, rfl, specOf_eq_ok.mp hspec⟩, rfl, rfl⟩
  · obtain ⟨uuid, name, spec, time⟩ := r
    rintro ⟨⟨text, rfl, hid⟩, ⟨doc, rfl, hspec⟩, rfl, rfl⟩
    exact ⟨text, doc, rfl, Uuid.parse?_eq_some.mpr hid, specOf_eq_ok.mpr hspec⟩

theorem readable_iff : r.Readable ↔ r.WellFormed := by
  rw [wellFormed_iff]
  constructor
  · exact fun h => ⟨_, query_eq_ok_iff.mp h⟩
  · exact fun ⟨_, h⟩ => readable_of_query (query_eq_ok_iff.mpr h)

theorem textOf_eq_error {c : Cell} {index : Nat} {column : String} {e : RepositoryError} :
    textOf c index column = .error e ↔ (∀ text, c ≠ .text text) ∧ e = notText c index column := by
  cases c <;> simp [textOf, notText, mistyped, eq_comm]

theorem integerOf_eq_error {c : Cell} {index : Nat} {column : String} {e : RepositoryError} :
    integerOf c index column = .error e ↔ (∀ n, c ≠ .int n) ∧ e = mistyped c index column := by
  cases c <;> simp [integerOf, mistyped, eq_comm]

theorem identifierOf_eq_error {text : String} {e : RepositoryError} :
    identifierOf text = .error e ↔
      (∀ id, ¬ Uuid.Spells text id) ∧ e = .invalidData (.identifier text) := by
  simp only [identifierOf, ← Uuid.parse?_eq_some]
  cases Uuid.parse? text <;> simp [eq_comm]

theorem specOf_eq_error {id : Uuid} {text : String} {e : RepositoryError} :
    specOf id text = .error e ↔
      (∀ spec, Json.document QuerySpec.read text ≠ .ok spec) ∧ e = .invalidData (.spec id) := by
  rw [specOf]
  cases Json.document QuerySpec.read text <;> simp [eq_comm]

/-- What is wrong with a row is told. -/
theorem query_eq_error {e : RepositoryError} : r.query = .error e ↔ r.Fault e := by
  simp only [query, bind_eq_error, textOf_eq_ok, identifierOf_eq_ok, specOf_eq_ok, pure,
    Except.pure, reduceCtorEq, and_false, exists_false, or_false, textOf_eq_error,
    integerOf_eq_error, identifierOf_eq_error, specOf_eq_error, Uuid.parse?_eq_some]
  -- one case for each check, in the order in which they are made
  constructor
  · rintro (⟨htype, rfl⟩ | ⟨text, htext, ⟨hformat, rfl⟩ | ⟨id, hid, ⟨htype, rfl⟩ |
      ⟨doc, hdoc, ⟨hcontent, rfl⟩ | ⟨spec, hspec, ⟨htype, rfl⟩ | ⟨name, hname, htype, rfl⟩⟩⟩⟩⟩)
    · exact .uuidType htype
    · exact .uuidFormat htext hformat
    · exact .specType ⟨text, htext, hid⟩ htype
    · refine .specContent ⟨text, htext, hid⟩ hdoc ?_
      rintro spec ⟨doc', hdoc', hspec⟩
      cases hdoc.symm.trans hdoc'
      exact hcontent spec hspec
    · exact .nameType ⟨text, htext, hid⟩ ⟨doc, hdoc, hspec⟩ htype
    · exact .timeType ⟨text, htext, hid⟩ ⟨doc, hdoc, hspec⟩ hname htype
  · intro h
    cases h with
    | uuidType htype => exact .inl ⟨htype, rfl⟩
    | uuidFormat htext hformat => exact .inr ⟨_, htext, .inl ⟨hformat, rfl⟩⟩
    | specType hid htype =>
      obtain ⟨text, htext, hid⟩ := hid
      exact .inr ⟨text, htext, .inr ⟨_, hid, .inl ⟨htype, rfl⟩⟩⟩
    | specContent hid hdoc hcontent =>
      obtain ⟨text, htext, hid⟩ := hid
      exact .inr ⟨text, htext, .inr ⟨_, hid, .inr ⟨_, hdoc,
        .inl ⟨fun spec hspec => hcontent spec ⟨_, hdoc, hspec⟩, rfl⟩⟩⟩⟩
    | nameType hid hspec htype =>
      obtain ⟨text, htext, hid⟩ := hid
      obtain ⟨doc, hdoc, hspec⟩ := hspec
      exact .inr ⟨text, htext, .inr ⟨_, hid, .inr ⟨doc, hdoc, .inr ⟨_, hspec,
        .inl ⟨htype, rfl⟩⟩⟩⟩⟩
    | timeType hid hspec hname htype =>
      obtain ⟨text, htext, hid⟩ := hid
      obtain ⟨doc, hdoc, hspec⟩ := hspec
      exact .inr ⟨text, htext, .inr ⟨_, hid, .inr ⟨doc, hdoc, .inr ⟨_, hspec,
        .inr ⟨_, hname, htype, rfl⟩⟩⟩⟩⟩

/-! ## Rows one after the other -/

theorem mapM_query_eq_ok_iff {rows : List Row} {queries : List SavedQuery} :
    rows.mapM query = .ok queries ↔ List.Forall₂ Decodes rows queries := by
  induction rows generalizing queries with
  | nil => simp [pure, Except.pure, eq_comm]
  | cons r rows ih =>
    simp only [List.mapM_cons, bind_eq_ok, ih, query_eq_ok_iff, pure, Except.pure,
      Except.ok.injEq, List.forall₂_cons_left_iff]
    constructor
    · rintro ⟨query, hquery, queries, hqueries, rfl⟩
      exact ⟨query, queries, hquery, hqueries, rfl⟩
    · rintro ⟨query, queries, hquery, hqueries, rfl⟩
      exact ⟨query, hquery, queries, hqueries, rfl⟩

/-- The rows before the first one with a fault are read. -/
theorem mapM_query_eq_error {rows : List Row} {e : RepositoryError} :
    rows.mapM query = .error e ↔ ∃ before r after, rows = before ++ r :: after ∧
      (∀ other ∈ before, other.WellFormed) ∧ r.Fault e := by
  induction rows with
  | nil => simp [pure, Except.pure]
  | cons r rows ih =>
    simp only [List.mapM_cons, bind_eq_error, ih, query_eq_error, query_eq_ok_iff, pure,
      Except.pure, reduceCtorEq, and_false, exists_false, or_false]
    constructor
    · rintro (hfault | ⟨query, hquery, before, r', after, rfl, hbefore, hfault⟩)
      · exact ⟨[], r, rows, rfl, by simp, hfault⟩
      · have hr : r.WellFormed := wellFormed_iff.mpr ⟨query, hquery⟩
        exact ⟨r :: before, r', after, rfl, List.forall_mem_cons.mpr ⟨hr, hbefore⟩, hfault⟩
    -- the fault is in the first row, or that row is read and the fault comes later
    · rintro ⟨before, r', after, hrows, hbefore, hfault⟩
      cases before with
      | nil =>
        cases hrows
        exact .inl hfault
      | cons first before =>
        cases hrows
        obtain ⟨hr, hbefore⟩ := List.forall_mem_cons.mp hbefore
        obtain ⟨query, hquery⟩ := wellFormed_iff.mp hr
        exact .inr ⟨query, hquery, before, r', after, rfl, hbefore, hfault⟩

end Row

namespace Repository

variable {rows : List Row} {id : Uuid}

/-- The rows under the written form of an identifier. -/
def under (id : Uuid) (rows : List Row) : List Row :=
  rows.filter fun r => r.uuid = .text id.text

/-- Only a row under the written form of the identifier is read. -/
theorem get_eq (id : Uuid) (rows : List Row) : (⟨some rows⟩ : Repository).get id =
    match (under id rows).head? with
    | none => .ok none
    | some r => r.query.map some := by
  have hrows : (⟨some rows⟩ : Repository).rows = .ok rows := rfl
  rw [get, hrows, under, List.head?_filter, ← row?]
  simp only [bind, Except.bind]
  cases row? id rows with
  | none => rfl
  | some r =>
    dsimp only
    cases r.query <;> rfl

theorem get_eq_none : (⟨some rows⟩ : Repository).get id = .ok none ↔
    ∀ r ∈ rows, r.uuid ≠ .text id.text := by
  rw [get_eq]
  cases hhead : (under id rows).head? with
  | none =>
    have hnil : under id rows = [] := List.head?_eq_none_iff.mp hhead
    simpa [under] using hnil
  | some r =>
    obtain ⟨hr, huuid⟩ := List.mem_filter.mp (List.mem_of_head? hhead)
    refine iff_of_false ?_ fun h => h r hr (of_decide_eq_true huuid)
    dsimp only
    cases r.query <;> simp [Except.map]

theorem get_eq_some {r : Row} (hr : under id rows = [r]) (query : SavedQuery) :
    (⟨some rows⟩ : Repository).get id = .ok (some query) ↔ r.Decodes query := by
  rw [get_eq, hr, ← Row.query_eq_ok_iff]
  dsimp only [List.head?_cons]
  cases r.query <;> simp [Except.map]

theorem get_eq_error {r : Row} (hr : under id rows = [r]) (e : RepositoryError) :
    (⟨some rows⟩ : Repository).get id = .error e ↔ r.Fault e := by
  rw [get_eq, hr, ← Row.query_eq_error]
  dsimp only [List.head?_cons]
  cases r.query <;> simp [Except.map]

theorem list_readable :
    (∃ queries, (⟨some rows⟩ : Repository).list = .ok queries) ↔ ∀ r ∈ rows, r.WellFormed := by
  simp only [list_eq_ok, Row.readable_iff, exists_and_left, exists_eq, and_true]

/-- **Nothing in a table is left out, changed or hidden.** A list has one saved query for each row,
decoded from it, the newest row first and rows of the same time by the text of the identifier, or it
is the fault of the first row that is not well-formed. What is got by an identifier is decided by
the row under its written form. -/
theorem table_reads (rows : List Row) :
    (∃ listed, listed.Perm rows ∧ Row.Sorted listed ∧
      (listed.Pairwise fun a b => ∀ {s t m n}, a.uuid = .text s → b.uuid = .text t →
        a.updatedAt = .int m → b.updatedAt = .int n →
          n.toInt < m.toInt ∨ n.toInt = m.toInt ∧ s ≤ t) ∧
      ((rows.map (·.uuid.rank)).Nodup →
        ∀ other, other.Perm rows → Row.Sorted other → other = listed) ∧
      (∀ queries, (⟨some rows⟩ : Repository).list = .ok queries ↔
        List.Forall₂ Row.Decodes listed queries) ∧
      ∀ e, (⟨some rows⟩ : Repository).list = .error e ↔
        ∃ before r after, listed = before ++ r :: after ∧
          (∀ other ∈ before, other.WellFormed) ∧ r.Fault e) ∧
    ((∃ queries, (⟨some rows⟩ : Repository).list = .ok queries) ↔ ∀ r ∈ rows, r.WellFormed) ∧
    ∀ id,
      ((⟨some rows⟩ : Repository).get id = .ok none ↔ ∀ r ∈ rows, r.uuid ≠ .text id.text) ∧
      (∀ r, under id rows = [r] →
        (∀ query, (⟨some rows⟩ : Repository).get id = .ok (some query) ↔ r.Decodes query) ∧
        ∀ e, (⟨some rows⟩ : Repository).get id = .error e ↔ r.Fault e) ∧
      ∀ others, under id others = under id rows →
        (⟨some others⟩ : Repository).get id = (⟨some rows⟩ : Repository).get id := by
  have hperm : (rows.mergeSort Row.isBefore).Perm rows := List.mergeSort_perm rows Row.isBefore
  refine ⟨⟨rows.mergeSort Row.isBefore, hperm, Row.sorted_mergeSort rows, ?_, ?_, ?_, ?_⟩,
    list_readable, fun id => ⟨get_eq_none, ?_, ?_⟩⟩
  · refine (Row.sorted_mergeSort rows).imp ?_
    intro a b hplace s t m n ha hb hm hn
    exact (Row.place_le_iff ha hb hm hn).mp hplace
  · exact fun hnodup other hother hsorted =>
      Row.eq_of_sorted hnodup hperm hother (Row.sorted_mergeSort rows) hsorted
  · exact fun queries => Row.mapM_query_eq_ok_iff
  · exact fun e => Row.mapM_query_eq_error
  · exact fun r hr => ⟨get_eq_some hr, get_eq_error hr⟩
  · intro others hothers
    rw [get_eq, get_eq, hothers]

end Repository

end LiveDesk.Storage
