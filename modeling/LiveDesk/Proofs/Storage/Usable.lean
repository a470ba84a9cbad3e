import LiveDesk.Proofs.Storage.Listing

/-!
# Rows that are listed and not found

A list reads the identifier of a row in any of its spellings, but a query is got and deleted by the
written form only. **What is listed can be got and deleted, and has an identifier of its own,
exactly if every row has its identifier in the written form** (`Repository.usability`). A row with
another spelling is listed, and its identifier finds nothing, or a row that is listed besides.

- `Row.Canonical`: the identifier of a row is in the written form.
- `Repository.Serves`, `Misses`: the query of a row can be got and deleted, or it cannot.
- `Repository.Usable`: all that is listed can be got and deleted on its own.
- `split_of_mem`: the rows before and behind a row have other identifiers.
- `delete_eq`: what is deleted.
-/

namespace LiveDesk.Storage

/-- The identifier of a row is in the written form. -/
def Row.Canonical (r : Row) : Prop :=
  ∃ id : Uuid, r.uuid = .text id.text

theorem Row.Canonical.uuid_eq {r : Row} (h : r.Canonical) (hr : r.Readable) :
    r.uuid = .text r.shown.id.text := by
  obtain ⟨id, huuid⟩ := h
  rw [hr.id_shown huuid, huuid]

theorem Row.canonical_ofQuery (q : SavedQuery) : (Row.ofQuery q).Canonical :=
  ⟨q.id, rfl⟩

namespace Repository

/-- The query of the row is got by its identifier, and deleted by it: with this row only, and
without any other query that is listed. -/
structure Serves (rows : List Row) (items : List SavedQuery) (r : Row) (query : SavedQuery) :
    Prop where
  got : (⟨some rows⟩ : Repository).get query.id = .ok (some query)
  deleted : ∃ rest left, (⟨some rows⟩ : Repository).delete query.id = .ok ⟨some rest⟩ ∧
    rows.Perm (r :: rest) ∧ (⟨some rest⟩ : Repository).list = .ok left ∧ items.Perm (query :: left)

/-- The row is not found by its identifier: nothing is, or another row that is listed under it. -/
inductive Misses (rows : List Row) (r : Row) (id : Uuid) : Prop where
  | nothing : (⟨some rows⟩ : Repository).get id = .ok none →
    (⟨some rows⟩ : Repository).delete id = .error (.notFound id) → Misses rows r id
  | other {other : Row} {query : SavedQuery} : other ∈ rows → other ≠ r → other.Decodes query →
    query.id = id → (⟨some rows⟩ : Repository).get id = .ok (some query) → Misses rows r id

/-- All that is listed can be got and deleted, by identifiers that no two have. -/
structure Usable (rows : List Row) (items : List SavedQuery) : Prop where
  distinct : (items.map (·.id)).Nodup
  serves : ∀ query ∈ items, ∃ r, Serves rows items r query

variable {rows : List Row} {items : List SavedQuery} {r : Row} {query : SavedQuery}

/-! ## Rows of a table -/

theorem split_of_mem (hkey : (rows.map (·.uuid)).Nodup) (hr : r ∈ rows) :
    ∃ before after, rows = before ++ r :: after ∧
      ∀ other ∈ before ++ after, other.uuid ≠ r.uuid := by
  obtain ⟨before, after, rfl⟩ := List.append_of_mem hr
  refine ⟨before, after, rfl, fun other hother heq => ?_⟩
  rw [(List.perm_middle.map _).nodup_iff, List.map_cons, List.nodup_cons] at hkey
  exact hkey.1 (heq ▸ List.mem_map_of_mem hother)

theorem under_eq_nil {id : Uuid} : under id rows = [] ↔ ∀ r ∈ rows, r.uuid ≠ .text id.text := by
  simp [under]

theorem delete_eq (id : Uuid) (rows : List Row) : (⟨some rows⟩ : Repository).delete id =
    if under id rows = [] then .error (.notFound id)
    else .ok ⟨some (rows.filter fun r => r.uuid ≠ .text id.text)⟩ := by
  have hrows : (⟨some rows⟩ : Repository).rows = .ok rows := rfl
  have hrow : row? id rows = (under id rows).head? := (List.head?_filter ..).symm
  rw [delete, hrows]
  simp only [bind, Except.bind, hrow]
  cases under id rows with
  | nil => rfl
  | cons r under => rfl

theorem mem_items (hlist : (⟨some rows⟩ : Repository).list = .ok items) :
    query ∈ items ↔ ∃ r ∈ rows, r.Decodes query := by
  obtain ⟨hrows, rfl⟩ := list_eq_ok.mp hlist
  rw [(listed_perm rows).mem_iff, List.mem_map]
  refine exists_congr fun r => and_congr_right fun hr => ?_
  rw [← Row.query_eq_ok_iff, hrows r hr, Except.ok.injEq]

/-! ## One row -/

/-- A row in the written form is found by its identifier, and deleted alone. -/
theorem serves_canonical (hkey : (rows.map (·.uuid)).Nodup)
    (hlist : (⟨some rows⟩ : Repository).list = .ok items) (hr : r ∈ rows)
    (hquery : r.Decodes query) (huuid : r.uuid = .text query.id.text) :
    Serves rows items r query := by
  obtain ⟨before, after, hsplit, hother⟩ := split_of_mem hkey hr
  rw [huuid, List.forall_mem_append] at hother
  -- no other row has this identifier in its written form
  have hunder : under query.id rows = [r] := by
    rw [hsplit, under, List.filter_append, List.filter_cons_of_pos (by simpa using huuid),
      List.filter_eq_nil_iff.mpr (by simpa using hother.1),
      List.filter_eq_nil_iff.mpr (by simpa using hother.2), List.nil_append]
  have hrest : rows.filter (fun r => r.uuid ≠ .text query.id.text) = before ++ after := by
    rw [hsplit, List.filter_append, List.filter_cons_of_neg (by simpa using huuid),
      List.filter_eq_self.mpr (by simpa using hother.1),
      List.filter_eq_self.mpr (by simpa using hother.2)]
  have hperm : rows.Perm (r :: (before ++ after)) := hsplit ▸ List.perm_middle
  refine ⟨(get_eq_some hunder query).mpr hquery, before ++ after,
    ((before ++ after).mergeSort Row.isBefore).map Row.shown, ?_, hperm, ?_, ?_⟩
  · rw [delete_eq, hunder, if_neg (by simp), hrest]
  · obtain ⟨hrows, -⟩ := list_eq_ok.mp hlist
    exact list_eq_ok.mpr ⟨fun other h => hrows other (hperm.mem_iff.mpr (.tail _ h)), rfl⟩
  · obtain ⟨-, rfl⟩ := list_eq_ok.mp hlist
    have hshown : r.shown = query := Row.shown_of_query (Row.query_eq_ok_iff.mpr hquery)
    calc (rows.mergeSort Row.isBefore).map Row.shown
      _ |>.Perm (rows.map Row.shown) := listed_perm rows
      _ |>.Perm ((r :: (before ++ after)).map Row.shown) := hperm.map _
      _ |>.Perm (query :: _) := by
        rw [List.map_cons, hshown]
        exact (listed_perm _).symm.cons _

/-- A row in another spelling is not found by its identifier. -/
theorem misses_spelling (hkey : (rows.map (·.uuid)).Nodup)
    (hlist : (⟨some rows⟩ : Repository).list = .ok items) {id : Uuid}
    (huuid : r.uuid ≠ .text id.text) : Misses rows r id := by
  by_cases hnone : ∀ other ∈ rows, other.uuid ≠ .text id.text
  · refine .nothing (get_eq_none.mpr hnone) ?_
    rw [delete_eq, if_pos (under_eq_nil.mpr hnone)]
  · push Not at hnone
    obtain ⟨other, hother, htext⟩ := hnone
    have hreadable := (list_eq_ok.mp hlist).1 other hother
    have hdecodes : other.Decodes other.shown := Row.query_eq_ok_iff.mp hreadable
    obtain rfl : other.shown.id = id := hreadable.id_shown htext
    exact .other hother (fun h => huuid (h ▸ htext)) hdecodes rfl
      (serves_canonical hkey hlist hother hdecodes htext).got

/-! ## All rows -/

theorem canonical_of_usable (hlist : (⟨some rows⟩ : Repository).list = .ok items)
    (husable : Usable rows items) (hr : r ∈ rows) : r.Canonical := by
  obtain ⟨hrows, hitems⟩ := list_eq_ok.mp hlist
  have hshown : r.shown ∈ items :=
    (mem_items hlist).mpr ⟨r, hr, Row.query_eq_ok_iff.mp (hrows r hr)⟩
  -- the row that is got is the row itself, as no other one has its identifier
  have hsome : ¬ ∀ other ∈ rows, other.uuid ≠ .text r.shown.id.text := fun h => by
    obtain ⟨_, hserves⟩ := husable.serves _ hshown
    cases (get_eq_none.mpr h).symm.trans hserves.got
  push Not at hsome
  obtain ⟨other, hother, htext⟩ := hsome
  have hid : other.shown.id = r.shown.id := (hrows other hother).id_shown htext
  have hdistinct : (rows.map fun r => r.shown.id).Nodup := by
    have hperm := (listed_perm rows).map (·.id)
    rw [← hitems, List.map_map] at hperm
    exact hperm.nodup_iff.mp husable.distinct
  obtain rfl := List.inj_on_of_nodup_map hdistinct hother hr hid
  exact ⟨_, htext⟩

theorem usable_of_canonical (hkey : (rows.map (·.uuid)).Nodup)
    (hlist : (⟨some rows⟩ : Repository).list = .ok items) (hrows : ∀ r ∈ rows, r.Canonical) :
    Usable rows items := by
  obtain ⟨hreadable, hitems⟩ := list_eq_ok.mp hlist
  have huuid : ∀ r ∈ rows, r.uuid = .text r.shown.id.text := fun r hr =>
    (hrows r hr).uuid_eq (hreadable r hr)
  refine ⟨?_, fun query hquery => ?_⟩
  · rw [hitems, ((listed_perm rows).map _).nodup_iff]
    rw [List.map_congr_left huuid] at hkey
    have hmap : (rows.map fun r => Cell.text r.shown.id.text) =
        ((rows.map Row.shown).map (·.id)).map fun id => Cell.text id.text := by
      simp only [List.map_map, Function.comp_def]
    exact List.Nodup.of_map _ (hmap ▸ hkey)
  · obtain ⟨r, hr, hdecodes⟩ := (mem_items hlist).mp hquery
    have hshown : r.shown = query := Row.shown_of_query (Row.query_eq_ok_iff.mpr hdecodes)
    exact ⟨r, serves_canonical hkey hlist hr hdecodes (hshown ▸ huuid r hr)⟩

/-- **What is listed is usable exactly if all rows are in the written form.** Each row in this form
is got and deleted in any case, and each one in another spelling is missed. -/
theorem usability (hkey : (rows.map (·.uuid)).Nodup)
    (hlist : (⟨some rows⟩ : Repository).list = .ok items) :
    (Usable rows items ↔ ∀ r ∈ rows, r.Canonical) ∧
    ∀ r ∈ rows, ∃ query ∈ items, r.Decodes query ∧
      (r.uuid = .text query.id.text → Serves rows items r query) ∧
      (r.uuid ≠ .text query.id.text → Misses rows r query.id) := by
  refine ⟨⟨fun h r hr => canonical_of_usable hlist h hr, usable_of_canonical hkey hlist⟩,
    fun r hr => ?_⟩
  have hdecodes : r.Decodes r.shown := Row.query_eq_ok_iff.mp ((list_eq_ok.mp hlist).1 r hr)
  exact ⟨r.shown, (mem_items hlist).mpr ⟨r, hr, hdecodes⟩, hdecodes,
    serves_canonical hkey hlist hr hdecodes, misses_spelling hkey hlist⟩

section Examples

open Archive

/-- The foreign query can be used in its written form, and cannot with capital letters. -/
theorem usability_mixed :
    (holding [foreign, own]).list = .ok [own, foreign] ∧
      Usable [.ofQuery foreign, .ofQuery own] [own, foreign] ∧
      mixed.list = .ok [own, foreign] ∧ ¬ Usable [foreignRow, .ofQuery own] [own, foreign] := by
  have hlist : (holding [foreign, own]).list = .ok [own, foreign] := by
    have horder : Row.inOrder foreign own = false := by decide
    rw [list_holding]
    simp [List.mergeSort, horder]
  have hcapital : ¬ foreignRow.Canonical := fun h => by
    have huuid := h.uuid_eq (Row.readable_of_query query_foreignRow)
    rw [Row.shown_of_query query_foreignRow] at huuid
    revert huuid
    decide
  refine ⟨hlist, (usability (by decide) hlist).1.mpr ?_, list_mixed, fun h => ?_⟩
  · simp [Row.canonical_ofQuery]
  · exact hcapital ((usability (by decide) list_mixed).1.mp h foreignRow (.head _))

/-- A query with capital letters in its identifier is listed, but it is neither got nor deleted. -/
theorem usability_missed :
    mixed.list = .ok [own, foreign] ∧ mixed.get foreign.id = .ok none ∧
      mixed.delete foreign.id = .error (.notFound foreign.id) ∧
      ¬ ∀ rows items, (rows.map Row.uuid).Nodup →
        (⟨some rows⟩ : Repository).list = .ok items → Usable rows items := by
  have hget : mixed.get foreign.id = .ok none := by decide
  refine ⟨list_mixed, hget, by decide, fun h => ?_⟩
  have husable := h [foreignRow, .ofQuery own] [own, foreign] (by decide) list_mixed
  obtain ⟨_, hserves⟩ := husable.serves foreign (by simp)
  cases hget.symm.trans hserves.got

end Examples

end Repository

end LiveDesk.Storage
