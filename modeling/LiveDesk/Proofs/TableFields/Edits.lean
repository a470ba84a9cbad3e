import LiveDesk.Proofs.TableFields.Tables

/-!
# Edits while columns are saved

A save sends the columns as they are when it is asked for. While it is in flight the columns can be
edited further, and the edits show. Then its answer replaces the columns, whatever has become of
them meanwhile, and takes the mark of unsaved edits away.

- `accepted?`, `acceptedEdits`: the edits that their methods accept.
- `acceptedEdits_eq`: they are the edits that are published.
- `table_edits`: the table is edited by them while no answer is installed.
- **`edits_dropped`**: what a save sends and what its answer leaves, so that no edit is lost if and
  only if none was accepted in between.
- `edits_dropped_nested`: an edit that is accepted before the request is even sent.
- `edits_dropped_silently`: an edit that is accepted and neither saved nor shown nor marked.
-/

namespace LiveDesk.TableFields

open Observable Session

variable {V : Type}

/-! ## Accepted edits -/

/-- Whether an edit changes anything: a column that is moved to its own place stays there. -/
def Edit.isReal : Edit → Bool
  | .toggle _ => true
  | .move source target => source != target

/-- The edit that a move makes, if its method says that it was made. -/
def accepted? (s : Session feature V) : Session.Move feature V → Option Edit
  | .edit e => if s.isFree && answer s.state e && Edit.isReal e then some e else none
  | .tick | .publish _ | .ask _ | .resolve _ _ | .cancel _ | .observe _ | .ret | .panic => none

/-- The edits of a run that are accepted. -/
def acceptedEdits [DecidableEq V] (s : Session feature V) :
    List (Session.Move feature V) → List Edit
  | [] => []
  | m :: ms => (accepted? s m).toList ++ acceptedEdits (s.step m).1 ms

/-- The edit that a turn publishes. -/
def edited? : Turn feature → Option Edit
  | .edited e _ => some e
  | .idle | .published _ | .declined | .begun _ _ _ | .opened _ _ | .raised _ _ | .sent _ _
  | .stored _ _ _ _ | .lowered _ _ | .ended _ | .failed => none

/-- An edit is published if its method says that it was made and if it changes anything. -/
theorem isSome_edit (x : State) (e : Edit) :
    (edit x e).isSome = (answer x e && e.isReal) := by
  cases e with
  | toggle key =>
    simp only [edit, answer, Edit.isReal]
    split <;> simp_all
  | move source target =>
    simp only [edit, answer, Edit.isReal]
    split <;> simp_all

theorem edited?_turn_of_ne {s : Session feature V} {m : Session.Move feature V}
    (hm : ∀ e, m ≠ .edit e) : edited? (s.turn m) = none := by
  have hcause := s.cause m
  generalize s.turn m = t at hcause
  cases hcause with
  | edited => exact absurd rfl (hm _)
  | idle | published | declined | begun | opened | stored | lowered | raised | sent | ended
  | failed => rfl

/-- The edits that are published are those that are accepted. -/
theorem edited?_turn (s : Session feature V) (m : Session.Move feature V) :
    edited? (s.turn m) = accepted? s m := by
  cases m with
  | edit e =>
    by_cases hfree : s.isFree = true
    · have hsome := isSome_edit s.state e
      rw [turn_of_isFree hfree, freeTurn, accepted?, hfree, Bool.true_and, ← hsome]
      show edited? (((edit s.state e).map (Turn.edited e)).getD .idle) = _
      cases edit s.state e <;> rfl
    · have hidle : s.turn (.edit e) = .idle := turn_of_not_isFree hfree (by simp)
      rw [hidle, accepted?, Bool.eq_false_iff.mpr hfree]
      rfl
  | tick | publish | ask | resolve | cancel | observe | ret | panic =>
    exact edited?_turn_of_ne (by simp)

section Runs

variable [DecidableEq V]

theorem acceptedEdits_eq (s : Session feature V) (ms : List (Session.Move feature V)) :
    acceptedEdits s ms = (s.turns ms).filterMap edited? := by
  induction ms generalizing s with
  | nil => rfl
  | cons m ms ih =>
    rw [acceptedEdits, ih, turns, List.filterMap_cons, edited?_turn]
    cases accepted? s m <;> rfl

/-! ## Saves -/

/-- Neither is an answer installed nor another entity switched to. -/
def isCalm : Turn feature → Bool
  | .begun _ _ _ | .stored _ _ _ _ => false
  | .idle | .edited _ _ | .published _ | .declined | .opened _ _ | .raised _ _ | .sent _ _
  | .lowered _ _ | .ended _ | .failed => true

/-- Only edits change a table in the meantime. -/
theorem table_edits {ts : List (Turn feature)} (hcalm : ∀ t ∈ ts, isCalm t = true) (x : Table) :
    ts.foldl Table.turn x = (ts.filterMap edited?).foldl Table.edit x := by
  induction ts generalizing x with
  | nil => rfl
  | cons t ts ih =>
    obtain ⟨ht, hts⟩ := List.forall_mem_cons.mp hcalm
    rw [List.foldl_cons, ih hts]
    cases t with
    | begun | stored => cases ht
    | edited | idle | published | declined | opened | raised | sent | lowered | ended | failed =>
      rfl

/-- A save that is admitted carries the columns at hand, for the entity at hand. -/
theorem accept_save {x : State} {c : Call} (h : accept x .save = .proceed c) :
    ∃ entity, x.entity = some entity ∧ c = .save entity x.fields := by
  simp only [accept] at h
  split at h
  · cases h
  · next entity hentity =>
    split at h
    · cases h
    · cases h
      exact ⟨entity, hentity, rfl⟩

theorem install_save (x : State) (entity : String) (fields payload : List TableField) :
    x.table.install (.save entity fields) payload
      = ⟨x.entity, arrange payload, x.isLoaded, false⟩ := by
  rw [Table.install, Call.isLoad, Bool.or_false]
  rfl

/-- **Edits are dropped.** A save is asked for and answered with columns, and in between the table
fields are used in any way:

- the request carries the columns at the moment at which the save was asked for;
- if no other answer is installed and no other entity is switched to, then the columns before the
  answer are those with all accepted edits;
- the answer replaces the columns, and no edit is left marked;
- so no accepted edit is lost without a mark if and only if there is none. -/
theorem edits_dropped {a b : List (Session.Move feature V)} {c : Call}
    (hown : ∀ m ∈ b, ∀ p, m ≠ .publish p)
    (hasked : ((opening .opening : Session feature V).after a).isFree = true)
    (hcall : ((opening .opening : Session feature V).after (a ++ .ask Ask.save :: b)).call?
      ((opening .opening : Session feature V).after a).nextCall = some c)
    (hfree : ((opening .opening : Session feature V).after (a ++ .ask Ask.save :: b)).isFree = true)
    (payload : List TableField) :
    let asked := (opening .opening : Session feature V).after a
    let before := asked.after (.ask Ask.save :: b)
    let answered := (before.step (.resolve asked.nextCall (.ok payload))).1
    let edits := acceptedEdits asked (.ask Ask.save :: b)
    (∃ entity, asked.state.entity = some entity ∧
      feature.request c = .saveFields entity asked.state.fields) ∧
    ((∀ t ∈ asked.turns (.ask Ask.save :: b), isCalm t = true) →
      before.state.table = edits.foldl Table.edit asked.state.table) ∧
    answered.state.table = ⟨before.state.entity, arrange payload, before.state.isLoaded, false⟩ ∧
    ((answered.state.isDirty = false → edits = []) ↔ edits = []) := by
  intro asked before answered edits
  obtain ⟨entity, hentity, rfl⟩ := accept_save (accept_of_call? hasked hcall)
  have hinitial : asked.store.initial = .opening := initial_after _ a
  have htable : answered.state.table
      = ⟨before.state.entity, arrange payload, before.state.isLoaded, false⟩ := by
    rw [after_append] at hcall hfree
    refine (table_resolve ((initial_after asked _).trans hinitial) hfree hcall payload).trans ?_
    rw [if_neg fun h => nomatch h.1]
    exact install_save _ _ _ _
  refine ⟨⟨entity, hentity, rfl⟩, fun hcalm => ?_, htable, ⟨fun h => ?_, fun h _ => h⟩⟩
  · have hask : ∀ m ∈ .ask Ask.save :: b, ∀ p, m ≠ .publish p :=
      List.forall_mem_cons.mpr ⟨by simp, hown⟩
    rw [table_after hinitial hask, table_edits hcalm]
    show _ = (acceptedEdits asked _).foldl _ _
    rw [acceptedEdits_eq]
  · exact h (congrArg Table.isDirty htable)

end Runs

section Examples

/-- The articles are shown to a subscriber. -/
def shownArticles : List (Session.Move feature Nat) :=
  loadArticles ++ [.observe .subscribe]

/-- The subscriber hides the title when it is called with the raised flag of a save. -/
def nestedEdit : List (Session.Move feature Nat) :=
  [.tick, .tick, .edit (Edit.toggle "title"), .ret, .tick, .tick, .tick, .ret, .tick, .tick, .tick]

theorem isFree_shownArticles :
    ((opening .opening : Session feature Nat).after shownArticles).isFree = true := by cbv

theorem isFree_nestedEdit :
    ((opening .opening : Session feature Nat).after
      (shownArticles ++ .ask Ask.save :: nestedEdit)).isFree = true := by cbv

theorem outline_nestedEdit :
    ((opening .opening : Session feature Nat).after
      (shownArticles ++ .ask Ask.save :: nestedEdit)).outline
      = ⟨.opening,
        ⟨some "articles", [{ title with visible := false }], false, true, true, true⟩, [],
        [(1, .save "articles" [title])], 2⟩ := by cbv

theorem nextCall_shownArticles :
    ((opening .opening : Session feature Nat).after shownArticles).nextCall = 1 := by cbv

theorem acceptedEdits_nestedEdit :
    acceptedEdits ((opening .opening : Session feature Nat).after shownArticles)
      (.ask Ask.save :: nestedEdit) = [.toggle "title"] := by cbv

/-- The title is hidden before the request is sent, and the request and its answer show it. -/
theorem edits_dropped_nested :
    let asked := (opening .opening : Session feature Nat).after shownArticles
    let before := asked.after (.ask Ask.save :: nestedEdit)
    let answered := (before.step (.resolve asked.nextCall (.ok [title]))).1
    (∀ m ∈ nestedEdit, ∀ p, m ≠ .publish p) ∧ asked.isFree = true ∧
      before.call? asked.nextCall = some (.save "articles" [title]) ∧ before.isFree = true ∧
      acceptedEdits asked (.ask Ask.save :: nestedEdit) = [.toggle "title"] ∧
      before.state.fields = [{ title with visible := false }] ∧
      answered.state.table = ⟨some "articles", arrange [title], true, false⟩ := by
  intro asked before answered
  have hown : ∀ m ∈ nestedEdit, ∀ p, m ≠ .publish p := by simp [nestedEdit]
  have hbefore : before = (opening .opening : Session feature Nat).after
      (shownArticles ++ .ask Ask.save :: nestedEdit) := (after_append _ _ _).symm
  have hstate : before.state = _ := hbefore ▸ congrArg Outline.state outline_nestedEdit
  have hcalls : before.calls = _ := hbefore ▸ congrArg Outline.calls outline_nestedEdit
  have hcall : before.call? asked.nextCall = some (.save "articles" [title]) := by
    rw [call?, hcalls, show asked.nextCall = 1 from nextCall_shownArticles]
    rfl
  have hfree : before.isFree = true := hbefore ▸ isFree_nestedEdit
  obtain ⟨-, -, htable, -⟩ := edits_dropped (V := Nat) (a := shownArticles) hown
    isFree_shownArticles (hbefore ▸ hcall) isFree_nestedEdit [title]
  refine ⟨hown, isFree_shownArticles, hcall, hfree, acceptedEdits_nestedEdit,
    congrArg State.fields hstate, htable.trans ?_⟩
  show Table.mk before.state.entity _ before.state.isLoaded _ = _
  rw [hstate]

/-- A save of the title is in flight. -/
def savedArticles : List (Session.Move feature Nat) :=
  loadArticles ++ [.ask Ask.save] ++ catchUp

/-- The title is hidden while it is saved, and then the columns are shown as they were sent. -/
theorem edits_dropped_silently :
    let before := (opening .opening : Session feature Nat).after savedArticles
    let edited := (before.step (.edit (Edit.toggle "title"))).1
    let answered := (opening .opening : Session feature Nat).after
      (savedArticles ++ [.edit (Edit.toggle "title")] ++ catchUp ++ [.resolve 1 (.ok [title])])
    answer before.state (.toggle "title") = true ∧
      edited.state.fields = [{ title with visible := false }] ∧ edited.state.isDirty = true ∧
      answered.state.fields = [title] ∧ answered.state.isDirty = false := by
  refine ⟨?_, ?_, ?_, ?_, ?_⟩ <;> cbv

end Examples

end LiveDesk.TableFields
