import LiveDesk.Proofs.TableFields.Ledger

/-!
# The places of columns

A response may carry any positions. Its columns are put in order by them, and from then on every
column has the number of its place, whatever is edited, answered or asked for.

- `Numbered`: every column has the number of its place.
- `numbered_arrange`, `numbered_toggleFirst`, `numbered_moved`: what numbers columns, and what keeps
  them numbered.
- **`Table.numbered_note`**, `Table.length_note`: every deed keeps the columns numbered, and
  makes no more of them than a response has.
- `numbered_after`: the columns are numbered after every run.
- **`places`**: the place of every column after every run, and those of the columns that arrive.
- `places_crowded`: columns that arrive with equal and with the greatest positions.
-/

namespace LiveDesk.TableFields

open Observable Session

variable {V : Type}

/-- Every column has the number of its place. -/
def Numbered (fields : List TableField) : Prop :=
  ∀ i (hi : i < fields.length), fields[i].position = UInt32.ofNat i

theorem numbered_nil : Numbered [] :=
  fun _ hi => nomatch hi

/-- Whether columns are numbered can be seen from their positions. -/
theorem numbered_iff {fields : List TableField} :
    Numbered fields ↔
      fields.map (·.position) = (List.range fields.length).map UInt32.ofNat := by
  constructor
  · intro h
    refine List.ext_getElem (by simp) fun i hi _ => ?_
    rw [List.getElem_map, List.getElem_map, List.getElem_range, h]
  · intro h i hi
    have hposition := congrArg (·[i]?) h
    simpa [hi] using hposition

theorem numbered_renumber (fields : List TableField) : Numbered (renumber fields) := by
  intro i hi
  simp only [renumber, renumberFrom_eq_mapIdx, List.getElem_mapIdx, Nat.zero_add]

theorem numbered_arrange (fields : List TableField) : Numbered (arrange fields) :=
  numbered_renumber _

theorem positions_toggleFirst (key : String) (fields : List TableField) :
    (toggleFirst key fields).map (·.position) = fields.map (·.position) := by
  induction fields with
  | nil => rfl
  | cons f rest ih =>
    rw [toggleFirst]
    by_cases h : f.key = key
    · rw [if_pos h]
      rfl
    · rw [if_neg h, List.map_cons, List.map_cons, ih]

theorem length_toggleFirst (key : String) (fields : List TableField) :
    (toggleFirst key fields).length = fields.length := by
  simpa using congrArg List.length (positions_toggleFirst key fields)

/-- A column that is hidden or shown stays at its place. -/
theorem numbered_toggleFirst {fields : List TableField} (h : Numbered fields) (key : String) :
    Numbered (toggleFirst key fields) := by
  rw [numbered_iff, positions_toggleFirst, length_toggleFirst]
  exact numbered_iff.mp h

theorem numbered_moved {fields : List TableField} (h : Numbered fields) (source target : Nat) :
    Numbered (moved source target fields) := by
  rw [moved]
  split
  · exact h
  · exact numbered_renumber _

theorem length_arrange (fields : List TableField) : (arrange fields).length = fields.length := by
  rw [arrange, renumber, length_renumberFrom, List.length_mergeSort]

theorem length_moved {source target : Nat} {fields : List TableField}
    (hsource : source < fields.length) (htarget : target < fields.length) :
    (moved source target fields).length = fields.length := by
  simpa [names] using (names_moved hsource htarget).length_eq

/-! ## Deeds and runs -/

namespace Table

variable {t : Table}

theorem numbered_edit (h : Numbered t.fields) (e : Edit) : Numbered (t.edit e).fields := by
  cases e with
  | toggle key => exact numbered_toggleFirst h key
  | move source target => exact numbered_moved h source target

theorem length_edit {e : Edit} (h : t.accepts e = true) :
    (t.edit e).fields.length = t.fields.length := by
  cases e with
  | toggle key => exact length_toggleFirst key t.fields
  | move source target =>
    obtain ⟨hsource, htarget, -⟩ := of_decide_eq_true h
    exact length_moved hsource htarget

/-- **Every deed keeps the columns numbered.** -/
theorem numbered_note (h : Numbered t.fields) (d : Deed feature) : Numbered (t.note d).fields := by
  cases d with
  | edited e =>
    show Numbered (if t.accepts e then t.edit e else t).fields
    split
    · exact numbered_edit h e
    · exact h
  | asked a =>
    cases a with
    | save => exact h
    | load entity reload =>
      rw [note]
      split
      · exact h
      · exact numbered_nil
  | replied c payload =>
    rw [note]
    split
    · exact h
    · exact numbered_arrange payload

/-- No deed makes more columns than there are in its response. -/
theorem length_note {most : Nat} (h : t.fields.length ≤ most) {d : Deed feature}
    (hpayload : ∀ c payload, d = .replied c payload → List.length payload ≤ most) :
    (t.note d).fields.length ≤ most := by
  cases d with
  | edited e =>
    show (if t.accepts e then t.edit e else t).fields.length ≤ most
    split
    · next he => exact (length_edit he).trans_le h
    · exact h
  | asked a =>
    cases a with
    | save => exact h
    | load entity reload =>
      rw [note]
      split
      · exact h
      · exact Nat.zero_le most
  | replied c payload =>
    rw [note]
    split
    · exact h
    · exact (length_arrange payload).trans_le (hpayload c payload rfl)

theorem numbered_foldl (h : Numbered t.fields) (ds : List (Deed feature)) :
    Numbered (ds.foldl note t).fields := by
  induction ds generalizing t with
  | nil => exact h
  | cons d ds ih => exact ih (numbered_note h d)

theorem length_foldl {most : Nat} (h : t.fields.length ≤ most) {ds : List (Deed feature)}
    (hpayload : ∀ c payload, .replied c payload ∈ ds → List.length payload ≤ most) :
    (ds.foldl note t).fields.length ≤ most := by
  induction ds generalizing t with
  | nil => exact h
  | cons d ds ih =>
    refine ih (length_note h ?_) fun c payload hd => hpayload c payload (List.mem_cons_of_mem _ hd)
    rintro c payload rfl
    exact hpayload c payload List.mem_cons_self

end Table

section Runs

variable [DecidableEq V] {ms : List (Session.Move feature V)}

/-- **The columns are numbered after every run.** -/
theorem numbered_after (hown : ∀ m ∈ ms, ∀ p, m ≠ .publish p) :
    Numbered ((opening .opening : Session feature V).after ms).state.fields := by
  have htable := tableAspect.after (s := (opening .opening : Session feature V)) rfl hown
  rw [show ((opening .opening : Session feature V).after ms).state.fields = _ from
    congrArg Table.fields htable]
  exact Table.numbered_foldl numbered_nil _

/-- There are never more columns than there are in a response. -/
theorem length_after {most : Nat} (hown : ∀ m ∈ ms, ∀ p, m ≠ .publish p)
    (hmost : ∀ id payload, .resolve id (.ok payload) ∈ ms → List.length payload ≤ most) :
    ((opening .opening : Session feature V).after ms).state.fields.length ≤ most := by
  have htable := tableAspect.after (s := (opening .opening : Session feature V)) rfl hown
  rw [show ((opening .opening : Session feature V).after ms).state.fields = _ from
    congrArg Table.fields htable]
  refine Table.length_foldl (Nat.zero_le most) fun c payload hmem => ?_
  obtain ⟨id, hid⟩ := resolve_of_replied_mem hmem
  exact hmost id payload hid

/-- **The place of every column.** In every run of the methods of the table fields and of the
answers of their backend, none of which has more columns than there are positions:

- every column has the number of its place, so that they are strictly ordered by position;
- columns that arrive are put in order by the positions that they arrive with, columns of one
  position in the order of their response, and an answer to a load that comes too late changes
  nothing. -/
theorem places (hown : ∀ m ∈ ms, ∀ p, m ≠ .publish p)
    (hmost : ∀ id payload, .resolve id (.ok payload) ∈ ms → List.length payload ≤ 2 ^ 32) :
    let s := (opening .opening : Session feature V).after ms
    (∀ i (hi : i < s.state.fields.length), s.state.fields[i].position.toNat = i) ∧
      s.state.fields.Pairwise (fun a b => a.position < b.position) ∧
      ∀ id c payload, s.isFree = true → s.call? id = some c →
        let arrived := (s.step (.resolve id (.ok payload))).1.state.fields
        if c.isLoad = true ∧ s.state.entity ≠ some c.entity then arrived = s.state.fields
        else ∃ sorted : List TableField, sorted.Perm payload ∧
          sorted.Pairwise (fun a b => a.position ≤ b.position) ∧
          (∀ position, sorted.filter (·.position = position)
            = payload.filter (·.position = position)) ∧
          arrived = sorted.mapIdx fun i f => { f with position := UInt32.ofNat i } := by
  intro s
  have hlength : s.state.fields.length ≤ 2 ^ 32 := length_after hown hmost
  -- the numbers fit into 32 bits because there are no more columns than arrived at once
  have hnumber : ∀ i (hi : i < s.state.fields.length), s.state.fields[i].position.toNat = i := by
    intro i hi
    rw [numbered_after hown i hi]
    exact UInt32.toNat_ofNat_of_lt' (hi.trans_le hlength)
  refine ⟨hnumber, List.pairwise_iff_getElem.mpr fun i j hi hj hij => ?_,
    fun id c payload hfree hcall => ?_⟩
  · rw [UInt32.lt_iff_toNat_lt, hnumber i hi, hnumber j hj]
    exact hij
  · intro arrived
    have htable := table_resolve (initial_after _ ms) hfree hcall payload
    split
    · next hlate =>
      rw [if_pos hlate] at htable
      exact congrArg Table.fields htable
    · next hlate =>
      rw [if_neg hlate] at htable
      obtain ⟨sorted, hperm, hsorted, hstable, harrange⟩ := arrange_spec payload
      exact ⟨sorted, hperm, hsorted, hstable, (congrArg Table.fields htable).trans harrange⟩

end Runs

section Examples

/-- The date of an article, to be shown behind everything else. -/
def date : TableField :=
  .shown "date" "Date" 4294967295

/-- The columns of articles come with positions that leave gaps and are not all different. -/
def crowdedArticles : List (Session.Move feature Nat) :=
  [.ask (Ask.load "articles" false)] ++ catchUp ++
    [.resolve 0 (.ok [date, { title with position := 7 }, { author with position := 7 }])]

theorem state_crowdedArticles :
    ((opening .opening : Session feature Nat).after crowdedArticles).state
      = ⟨some "articles", [title, author, { date with position := 2 }], false, true, false,
        false⟩ := by cbv

/-- The title stays before the author, and the date comes last. -/
theorem places_crowded :
    let s := (opening .opening : Session feature Nat).after crowdedArticles
    (∀ m ∈ crowdedArticles, ∀ p, m ≠ .publish p) ∧
      (∀ id payload, .resolve id (.ok payload) ∈ crowdedArticles →
        List.length payload ≤ 2 ^ 32) ∧
      s.state.fields = [title, author, { date with position := 2 }] ∧
      s.state.fields.Pairwise (fun a b => a.position < b.position) := by
  intro s
  have hown : ∀ m ∈ crowdedArticles, ∀ p, m ≠ .publish p := by simp [crowdedArticles, catchUp]
  have hmost : ∀ id payload, .resolve id (.ok payload) ∈ crowdedArticles →
      List.length payload ≤ 2 ^ 32 := by
    intro id payload hmem
    simp only [crowdedArticles, catchUp, List.mem_append, List.mem_singleton,
      List.mem_replicate, reduceCtorEq, and_false, false_or] at hmem
    cases hmem
    decide
  obtain ⟨-, hordered, -⟩ := places (V := Nat) hown hmost
  exact ⟨hown, hmost, congrArg State.fields state_crowdedArticles, hordered⟩

end Examples

end LiveDesk.TableFields
