import LiveDesk.Proofs.Record.Documents
import LiveDesk.Storage.Repository
import Mathlib.Data.List.Basic

/-!
# Repositories of saved queries only

The rows of a repository may come from anywhere. Here they are the rows of saved queries
(`Repository.holding`), as they are when nobody else has written to the table. **The operations then
work on the queries themselves**: a query is read from its row as it was put there
(`Row.query_ofQuery`), the row with an identifier is the row of the query with this identifier
(`row?_ofQuery`), and rows are listed in the order of their queries (`SavedQuery.Precedes`), which
is that of their keys (`Row.Key`, `Row.isBefore_text`). What happens to a query that is created
depends on the identifiers of the rows only (`Repository.create_new`, `Repository.create_used`).
-/

namespace LiveDesk

/-- The order of a list: the newer query first, queries of the same time by their written
identifiers. -/
def SavedQuery.Precedes (a b : SavedQuery) : Prop :=
  b.updatedAt < a.updatedAt ∨ a.updatedAt = b.updatedAt ∧ a.id.text < b.id.text

namespace Storage

variable {queries : List SavedQuery}

/-! ## The row of a saved query -/

namespace Row

/-- A specification is read back from the text that it is stored as. -/
theorem specOf_render (id : Uuid) (spec : QuerySpec) : specOf id spec.toJson.render = .ok spec := by
  rw [specOf, Json.document_render spec.reads_toJson]

/-- A saved query is read back from its row. -/
theorem query_ofQuery (q : SavedQuery) : (ofQuery q).query = .ok q := by
  have hid : identifierOf q.id.text = .ok q.id := by rw [identifierOf, Uuid.parse?_text]
  simp [query, ofQuery, textOf, integerOf, hid, specOf_render, bind, Except.bind, pure, Except.pure]

theorem kept_ofQuery (q : SavedQuery) : (ofQuery q).kept = ofQuery q := rfl

/-- The row of a saved query has no empty cell. -/
theorem hasNull_ofQuery (q : SavedQuery) : (ofQuery q).hasNull = false := rfl

/-- The row of a saved query is found under its identifier only. -/
theorem uuid_ofQuery_eq {q : SavedQuery} {id : Uuid} :
    (ofQuery q).uuid = .text id.text ↔ q.id = id := by
  simp [ofQuery]

/-- A table of saved queries is read back row by row. -/
theorem mapM_query (queries : List SavedQuery) :
    (queries.map ofQuery).mapM query = .ok queries := by
  induction queries with
  | nil => rfl
  | cons q queries ih =>
    rw [List.map_cons, List.mapM_cons, query_ofQuery, ih]
    rfl

/-! ## Order -/

/-- What a row is listed by: the time, and the text that its identifier is written as. -/
abbrev Key := Int × String

/-- What a row is listed by, if it has a text and a whole number in the places for them. -/
def key : Row → Key
  | ⟨.text id, _, _, .int time⟩ => (time.toInt, id)
  | _ => (0, "")

/-- The later time first, then the lesser text. -/
def Key.le (a b : Key) : Bool :=
  decide (b.1 < a.1 ∨ b.1 = a.1 ∧ a.2 ≤ b.2)

/-- The order of the keys is transitive. -/
theorem Key.le_trans (a b c : Key) (hab : Key.le a b = true) (hbc : Key.le b c = true) :
    Key.le a c = true := by
  rw [Key.le, decide_eq_true_iff] at *
  obtain hab | ⟨hab, hab'⟩ := hab
  · exact .inl (by omega)
  · obtain hbc | ⟨hbc, hbc'⟩ := hbc
    · exact .inl (by omega)
    · exact .inr ⟨by omega, String.le_trans hab' hbc'⟩

/-- Two keys can be compared. -/
theorem Key.le_total (a b : Key) : (Key.le a b || Key.le b a) = true := by
  rw [Bool.or_eq_true, Key.le, Key.le, decide_eq_true_iff, decide_eq_true_iff]
  rcases Int.lt_trichotomy a.1 b.1 with h | h | h
  · exact .inr (.inl h)
  · rcases String.le_total a.2 b.2 with htext | htext
    · exact .inl (.inr ⟨h.symm, htext⟩)
    · exact .inr (.inr ⟨h, htext⟩)
  · exact .inl (.inl h)

/-- Cells with texts are compared as their texts are. -/
theorem compare_text_isLE (s t : String) :
    (Cell.compare (.text s) (.text t)).isLE = true ↔ s ≤ t := by
  show (if s < t then Ordering.lt else if s = t then .eq else .gt).isLE = true ↔ s ≤ t
  by_cases hlt : s < t
  · simp [hlt, String.not_lt.1 (String.lt_asymm hlt)]
  · by_cases heq : s = t
    · simp [heq]
    · have hnot : ¬ s ≤ t := fun hle => heq (String.le_antisymm hle (String.not_lt.1 hlt))
      simp [hlt, heq, hnot]

/-- Rows with texts and whole numbers in their places are listed in the order of their keys. -/
theorem isBefore_text {s t : String} {m n : Int64} (name name' spec spec' : Cell) :
    isBefore ⟨.text s, name, spec, .int m⟩ ⟨.text t, name', spec', .int n⟩
      = Key.le (m.toInt, s) (n.toInt, t) := by
  rw [Bool.eq_iff_iff, Key.le, decide_eq_true_iff]
  show ((compare n.toInt m.toInt).then (Cell.compare (.text s) (.text t))).isLE = true ↔ _
  rw [Ordering.isLE_then_iff_or, compare_text_isLE, Int.compare_eq_lt, Int.compare_eq_eq]

/-- Whether the row of the first query may stand before the row of the second one. -/
def inOrder (a b : SavedQuery) : Bool :=
  (ofQuery a).isBefore (ofQuery b)

/-- Saved queries stand in the order of their keys. -/
theorem inOrder_eq (a b : SavedQuery) :
    inOrder a b = Key.le (a.updatedAt.toInt, a.id.text) (b.updatedAt.toInt, b.id.text) :=
  isBefore_text ..

/-- The newer saved query stands first, and of two of one time the one with the smaller text of the
identifier. -/
theorem inOrder_iff {a b : SavedQuery} :
    inOrder a b = true ↔ b.updatedAt.toInt < a.updatedAt.toInt ∨
      b.updatedAt.toInt = a.updatedAt.toInt ∧ a.id.text ≤ b.id.text := by
  rw [inOrder_eq, Key.le, decide_eq_true_iff]

/-- The order of the list is transitive. -/
theorem inOrder_trans (a b c : SavedQuery) (hab : inOrder a b = true) (hbc : inOrder b c = true) :
    inOrder a c = true := by
  rw [inOrder_eq] at *
  exact Key.le_trans _ _ _ hab hbc

/-- Two saved queries can be put in order. -/
theorem inOrder_total (a b : SavedQuery) : (inOrder a b || inOrder b a) = true := by
  rw [inOrder_eq, inOrder_eq]
  exact Key.le_total _ _

/-- Saved queries with different identifiers are in a strict order. -/
theorem precedes_of_inOrder {a b : SavedQuery} (h : inOrder a b = true) (hne : a.id ≠ b.id) :
    a.Precedes b := by
  obtain h | ⟨h, htext⟩ := inOrder_iff.1 h
  · exact .inl (Int64.lt_iff_toInt_lt.2 h)
  · refine .inr ⟨(Int64.toInt_inj.1 h).symm, ?_⟩
    exact String.not_le.1 fun hle => hne (Uuid.text_injective (String.le_antisymm htext hle))

end Row

/-! ## The operations -/

namespace Repository

variable {rows : List Row}

/-- **A query that is created has its row at the end**, if its identifier is not written in any row
before. -/
theorem create_new {q : SavedQuery} (hnew : ∀ r ∈ rows, r.uuid ≠ .text q.id.text) :
    (⟨some rows⟩ : Repository).create q.id q.updatedAt q.name q.spec
      = .ok (⟨some (rows ++ [.ofQuery q])⟩, q) := by
  have hrows? : (⟨some rows⟩ : Repository).rows = .ok rows := rfl
  have hany : rows.any (fun other => other.uuid == (Row.ofQuery q).uuid) = false := by
    rw [List.any_eq_false]
    exact fun r hr h => hnew r hr (eq_of_beq h)
  have hinsert : insert? (.ofQuery q) rows = some (rows ++ [.ofQuery q]) := by
    rw [insert?, Row.kept_ofQuery, Row.hasNull_ofQuery, hany]
    rfl
  -- the row is read back before the call answers, and it is the only one of its identifier
  have hrow : row? q.id (rows ++ [.ofQuery q]) = some (.ofQuery q) := by
    have hnone : rows.find? (fun row => row.uuid = .text q.id.text) = none :=
      List.find?_eq_none.mpr fun r hr h => hnew r hr (of_decide_eq_true h)
    rw [row?, List.find?_append, hnone]
    simp [Row.ofQuery]
  have hget : (⟨some (rows ++ [.ofQuery q])⟩ : Repository).get q.id = .ok (some q) := by
    have hkept : (⟨some (rows ++ [.ofQuery q])⟩ : Repository).rows
        = .ok (rows ++ [.ofQuery q]) := rfl
    rw [get, hkept]
    simp [hrow, Row.query_ofQuery, bind, Except.bind, pure, Except.pure]
  rw [create, hrows?]
  simp only [bind, Except.bind, hinsert, hget]
  rfl

/-- An identifier that is written in a row already is refused. -/
theorem create_used {q : SavedQuery} {r : Row} (hr : r ∈ rows) (huuid : r.uuid = .text q.id.text) :
    (⟨some rows⟩ : Repository).create q.id q.updatedAt q.name q.spec
      = .error (.database (.query .engine)) := by
  have hrows? : (⟨some rows⟩ : Repository).rows = .ok rows := rfl
  have hinsert : insert? (.ofQuery q) rows = none := by
    have hany : rows.any (fun other => other.uuid == (Row.ofQuery q).uuid) = true :=
      List.any_eq_true.mpr ⟨r, hr, beq_iff_eq.mpr huuid⟩
    rw [insert?, Row.kept_ofQuery, Row.hasNull_ofQuery, hany]
    rfl
  rw [create, hrows?]
  simp only [bind, Except.bind, hinsert]

/-- The repository whose rows are those of the given queries. -/
def holding (queries : List SavedQuery) : Repository :=
  ⟨some (queries.map Row.ofQuery)⟩

/-- An identifier that is not in the table is not found. -/
theorem find?_absent {id : Uuid} (h : id ∉ queries.map (·.id)) :
    queries.find? (·.id = id) = none := by
  rw [List.find?_eq_none]
  intro q hq heq
  exact h (of_decide_eq_true heq ▸ List.mem_map_of_mem hq)

/-- The row under an identifier is the row of the saved query with that identifier. -/
theorem row?_ofQuery (id : Uuid) (queries : List SavedQuery) :
    row? id (queries.map Row.ofQuery) = (queries.find? (·.id = id)).map Row.ofQuery := by
  rw [row?, List.find?_map]
  congr 2
  funext q
  exact decide_eq_decide.2 Row.uuid_ofQuery_eq

@[simp] theorem rows_holding (queries : List SavedQuery) :
    (holding queries).rows = .ok (queries.map Row.ofQuery) := rfl

/-- **Getting from a table of saved queries** finds the one with the identifier. -/
theorem get_holding (queries : List SavedQuery) (id : Uuid) :
    (holding queries).get id = .ok (queries.find? (·.id = id)) := by
  rw [get, rows_holding]
  simp only [bind, Except.bind, row?_ofQuery]
  cases queries.find? (·.id = id) with
  | none => rfl
  | some q => simp [Row.query_ofQuery, pure, Except.pure]

/-- **Listing a table of saved queries** sorts them. -/
theorem list_holding (queries : List SavedQuery) :
    (holding queries).list = .ok (queries.mergeSort Row.inOrder) := by
  have hsort : (queries.map Row.ofQuery).mergeSort Row.isBefore =
      (queries.mergeSort Row.inOrder).map Row.ofQuery :=
    (List.map_mergeSort (f := Row.ofQuery) fun a _ b _ => rfl).symm
  rw [list, rows_holding]
  show ((queries.map Row.ofQuery).mergeSort Row.isBefore).mapM Row.query = _
  rw [hsort, Row.mapM_query]

/-- **Creating a saved query** under a new identifier puts it behind the others. -/
theorem create_holding {q : SavedQuery}
    (hnew : q.id ∉ queries.map (·.id)) :
    (holding queries).create q.id q.updatedAt q.name q.spec =
      .ok (holding (queries ++ [q]), q) := by
  have huuid : ∀ r ∈ queries.map Row.ofQuery, r.uuid ≠ .text q.id.text := by
    rintro _ hr huuid
    obtain ⟨other, hother, rfl⟩ := List.mem_map.1 hr
    exact hnew (Row.uuid_ofQuery_eq.1 huuid ▸ List.mem_map_of_mem hother)
  rw [holding, holding, List.map_append]
  exact create_new huuid

/-- Deleting an identifier that is not in the table is refused. -/
theorem delete_absent {id : Uuid} (h : id ∉ queries.map (·.id)) :
    (holding queries).delete id = .error (.notFound id) := by
  rw [delete, rows_holding]
  simp [bind, Except.bind, row?_ofQuery, find?_absent h]

/-- The rows with other identifiers. -/
theorem filter_ofQuery (id : Uuid) (queries : List SavedQuery) :
    (queries.map Row.ofQuery).filter (fun row => row.uuid ≠ .text id.text) =
      (queries.filter (·.id ≠ id)).map Row.ofQuery := by
  rw [List.filter_map]
  congr 2
  funext q
  exact decide_eq_decide.2 (not_congr Row.uuid_ofQuery_eq)

/-- **Deleting a saved query** leaves the others as they are. -/
theorem delete_present {id : Uuid} (h : id ∈ queries.map (·.id)) :
    (holding queries).delete id = .ok (holding (queries.filter (·.id ≠ id))) := by
  obtain ⟨q, hq, hid⟩ := List.mem_map.1 h
  have hsome : (queries.find? (·.id = id)).isSome = true := by
    rw [List.find?_isSome]
    exact ⟨q, hq, decide_eq_true hid⟩
  obtain ⟨found, hfound⟩ := Option.isSome_iff_exists.1 hsome
  rw [delete, rows_holding]
  simp only [bind, Except.bind, row?_ofQuery, hfound, Option.map_some, filter_ofQuery]
  rfl

end Repository

end Storage

end LiveDesk
