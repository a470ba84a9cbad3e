import LiveDesk.Feature.SavedQueries
import LiveDesk.Proofs.Session.Requests
import LiveDesk.Proofs.Text.Words

/-!
# Names of saved queries

A query is saved under the words of the name that was asked for, with one space between them, and a
name without words is refused before anything happens.

- `normalizeName_eq`: the form in which a name is saved, read off its words.
- `normalizeName_eq_self_iff`: a name is saved as it is exactly if it is neat and not empty.
- **`names_normalized`**: which names are saved in the same form, and what is sent in every run.
- `names_normalized_spread`: a name with white space of several kinds, and a blank one.
-/

namespace LiveDesk

open Text

/-! ## The form in which a name is saved -/

/-- A name is normalized to its words with one space between them. -/
theorem normalizeName_eq (name : String) :
    normalizeName name =
      if words name.toList = [] then none
      else some (String.ofList (spaced (words name.toList))) := by
  have hnil : spaced (words name.toList) = [] ↔ words name.toList = [] :=
    spaced_eq_nil fun w => isWord_of_mem
  rw [normalizeName, collapse_trimChars]
  split
  next hempty => rw [if_pos (hnil.mp hempty)]
  next hne => rw [if_neg fun hempty => hne (hnil.mpr hempty)]

theorem normalizeName_eq_some {name n : String} :
    normalizeName name = some n ↔
      words name.toList ≠ [] ∧ n.toList = spaced (words name.toList) := by
  rw [normalizeName_eq]
  split
  next hnil => simp [hnil]
  next hne =>
    rw [Option.some_inj, and_iff_right hne]
    constructor
    · rintro rfl
      exact String.toList_ofList
    · intro h
      rw [← h, String.ofList_toList]

/-- Only a blank name is refused. -/
theorem normalizeName_eq_none_iff {name : String} :
    normalizeName name = none ↔ ∀ c ∈ name.toList, isBlank c = true := by
  rw [normalizeName_eq]
  split
  next hnil => exact iff_of_true rfl (words_eq_nil.mp hnil)
  next hne => exact iff_of_false (Option.some_ne_none _) fun h => hne (words_eq_nil.mpr h)

theorem normalizeName_eq_none {name : String} :
    normalizeName name = none ↔ Text.allBlank name = true := by
  rw [normalizeName_eq_none_iff, Text.allBlank, List.all_eq_true]

/-- The form in which a name is saved has the words of the name. -/
theorem words_of_normalizeName {name n : String} (h : normalizeName name = some n) :
    words n.toList = words name.toList := by
  rw [(normalizeName_eq_some.mp h).2, words_spaced fun w => isWord_of_mem]

/-- **A normalized name is normalized.** -/
theorem normalizeName_idem {name n : String} (h : normalizeName name = some n) :
    normalizeName n = some n := by
  obtain ⟨hne, hn⟩ := normalizeName_eq_some.mp h
  have hwords := words_of_normalizeName h
  exact normalizeName_eq_some.mpr ⟨hwords ▸ hne, hwords ▸ hn⟩

/-- A normalized name has no blank at its ends, and single spaces inside. -/
theorem neat_of_normalizeName {name n : String} (h : normalizeName name = some n) :
    Neat n.toList := by
  rw [(normalizeName_eq_some.mp h).2]
  exact neat_spaced fun w => isWord_of_mem

/-- A name is saved as it is exactly if it is neat and not empty. -/
theorem normalizeName_eq_self_iff {name : String} :
    normalizeName name = some name ↔ name.toList ≠ [] ∧ Neat name.toList := by
  constructor
  · intro h
    obtain ⟨hne, hname⟩ := normalizeName_eq_some.mp h
    refine ⟨fun hempty => ?_, neat_of_normalizeName h⟩
    rw [hempty, words_nil] at hne
    exact hne rfl
  · rintro ⟨hne, hneat⟩
    refine normalizeName_eq_some.mpr ⟨fun hnil => ?_, (spaced_words hneat).symm⟩
    have hempty := spaced_words hneat
    rw [hnil, spaced_nil] at hempty
    exact hne hempty.symm

/-- **Names are normalized to the same one if and only if their words are the same.** -/
theorem normalizeName_eq_iff {a b : String} :
    normalizeName a = normalizeName b ↔ words a.toList = words b.toList := by
  refine ⟨fun h => ?_, fun h => ?_⟩
  · cases hb : normalizeName b with
    | some n =>
      rw [← words_of_normalizeName hb, words_of_normalizeName (h.trans hb)]
    | none =>
      rw [words_eq_nil.mpr (normalizeName_eq_none_iff.mp hb),
        words_eq_nil.mpr (normalizeName_eq_none_iff.mp (h.trans hb))]
  · rw [normalizeName_eq a, normalizeName_eq b, h]

namespace SavedQueries

open Observable Session

/-! ## The names that are sent -/

/-- A blank name is refused, and named in the refusal. -/
theorem accept_save_blank {name : String} (h : normalizeName name = none) (spec : QuerySpec)
    (x : State) : feature.accept (.save name spec) x = .refuse (.invalidName name) := by
  simp only [feature, h]

/-- Any other name is sent in its normalized form. -/
theorem accept_save_named {name n : String} (h : normalizeName name = some n) (spec : QuerySpec)
    (x : State) : feature.accept (.save name spec) x = .proceed (.save n spec) := by
  simp only [feature, h]

section Runs

variable {V : Type} [DecidableEq V]

/-- A name that is sent was asked for in this form, or in one that has it. -/
theorem asked_of_create {ms : List (Session.Move feature V)} {id : CallId} {n : String}
    {spec : QuerySpec}
    (h : .sent id (.create n spec) ∈ (opening .opening : Session feature V).events ms) :
    ∃ a b name, ms = a ++ .ask (Ask.save name spec) :: b ∧ normalizeName name = some n := by
  obtain ⟨a, ask, b, c, hms, -, -, haccept, hrequest⟩ := asked_of_sent h
  cases ask with
  | load reload =>
    cases haccept
    cases hrequest
  | delete id =>
    cases haccept
    cases hrequest
  | save name spec' =>
    cases hname : normalizeName name with
    | none => cases (accept_save_blank hname spec' _).symm.trans haccept
    | some normal =>
      cases (accept_save_named hname spec' _).symm.trans haccept
      cases hrequest
      exact ⟨a, b, name, hms, hname⟩

/-- **A query is saved under the words of its name.** For every name:

- if it is white space only it has no form in which it could be saved; otherwise this form is its
  words with one space between them, which is neat and saved as it is;
- it is saved as it is exactly if it is neat and not empty;
- two names are saved in the same form exactly if they have the same words.

In every run of the methods of the saved queries:

- every name that is sent is the form of a name that was asked for; it is not empty and would be
  saved as it is;
- a name of white space only is refused with the text that was given. Nothing else happens then, and
  nothing is ever sent for this call. -/
theorem names_normalized :
    (∀ name : String,
      Words name.toList (words name.toList) ∧
      (normalizeName name = none ↔ ∀ c ∈ name.toList, isBlank c = true) ∧
      ((∃ c ∈ name.toList, isBlank c = false) →
        normalizeName name = some (String.ofList (spaced (words name.toList))) ∧
        Neat (spaced (words name.toList))) ∧
      (∀ n, normalizeName name = some n → normalizeName n = some n) ∧
      (normalizeName name = some name ↔ name.toList ≠ [] ∧ Neat name.toList)) ∧
    (∀ a b, normalizeName a = normalizeName b ↔ words a.toList = words b.toList) ∧
    (∀ (ms : List (Session.Move feature V)) (id : CallId) (n : String) (spec : QuerySpec),
      .sent id (.create n spec) ∈ (opening .opening : Session feature V).events ms →
      (∃ a b name, ms = a ++ .ask (Ask.save name spec) :: b ∧ normalizeName name = some n) ∧
      (∃ c ∈ n.toList, isBlank c = false) ∧ normalizeName n = some n) ∧
    ∀ (ms : List (Session.Move feature V)) (name : String) (spec : QuerySpec),
      let start : Session feature V := opening .opening
      let s := start.after ms
      s.isFree = true → (∀ c ∈ name.toList, isBlank c = true) →
      s.step (.ask (Ask.save name spec)) =
        ({ s with nextCall := s.nextCall + 1 },
          [.answered s.nextCall (.error (.refused (.invalidName name)))]) ∧
      ∀ later, requestsOf s.nextCall (start.events (ms ++ .ask (Ask.save name spec) :: later))
        = [] := by
  refine ⟨fun name => ⟨words_eq_iff.mp rfl, normalizeName_eq_none_iff, fun hsome => ?_,
    fun n => normalizeName_idem, normalizeName_eq_self_iff⟩, fun a b => normalizeName_eq_iff,
    fun ms id n spec hsent => ?_, fun ms name spec => ?_⟩
  · obtain ⟨c, hc, hblank⟩ := hsome
    have hne : words name.toList ≠ [] := fun hnil => by
      rw [words_eq_nil.mp hnil c hc] at hblank
      cases hblank
    rw [normalizeName_eq, if_neg hne]
    exact ⟨rfl, neat_spaced fun w => isWord_of_mem⟩
  · obtain ⟨a, b, name, hms, hname⟩ := asked_of_create hsent
    -- what is sent is a form already, so it is not blank
    have hself := normalizeName_idem hname
    refine ⟨⟨a, b, name, hms, hname⟩, ?_, hself⟩
    have hsome : ¬ ∀ c ∈ n.toList, isBlank c = true := fun hblank => by
      rw [normalizeName_eq_none_iff.mpr hblank] at hself
      cases hself
    push Not at hsome
    simpa using hsome
  · intro start s hfree hblank
    have haccept := accept_save_blank (normalizeName_eq_none_iff.mpr hblank) spec s.state
    exact ⟨step_of_refuse hfree haccept, requestsOf_of_declined (turn_of_refuse hfree haccept)⟩

end Runs

section Examples

/-- A name with white space of several kinds. -/
def spreadName : String := "  open \t bugs\u2003this\nweek "

/-- The words of a name with white space of several kinds. -/
def spreadWords : List (List Char) := ["open".toList, "bugs".toList, "this".toList, "week".toList]

/-- A query is saved under a name with white space of several kinds. -/
def spreadSave : List (Session.Move feature Nat) :=
  paced [.ask (Ask.save spreadName .empty)]

theorem words_spreadName : words spreadName.toList = spreadWords := by decide

theorem words_neatName : words "open bugs this week".toList = spreadWords := by decide

theorem isFree_spreadSave :
    ((opening .opening : Session feature Nat).after spreadSave).isFree = true := rfl

theorem request_spreadSave :
    ((opening .opening : Session feature Nat).events spreadSave)[2]?
      = some (.sent 0 (.create "open bugs this week" .empty)) := by cbv

/-- The name is sent with single spaces; a blank one is refused as it was given. -/
theorem names_normalized_spread :
    let s : Session feature Nat := (opening .opening : Session feature Nat).after spreadSave
    normalizeName spreadName = some "open bugs this week" ∧
      normalizeName "open bugs this week" = some "open bugs this week" ∧
      normalizeName spreadName = normalizeName "open bugs this week" ∧
      s.step (.ask (Ask.save " \n\t " .empty)) =
        ({ s with nextCall := s.nextCall + 1 },
          [.answered s.nextCall (.error (.refused (.invalidName " \n\t ")))]) := by
  intro s
  obtain ⟨hform, hsame, hsent, hblank⟩ := names_normalized (V := Nat)
  obtain ⟨-, -, hsome, -⟩ := hform spreadName
  have hself := (hsent spreadSave 0 _ _ (List.mem_of_getElem? request_spreadSave)).2.2
  refine ⟨(words_spreadName ▸ hsome ⟨'o', by decide, by decide⟩).1, hself,
    (hsame _ _).mpr (words_spreadName.trans words_neatName.symm), ?_⟩
  exact (hblank spreadSave " \n\t " .empty isFree_spreadSave
    (normalizeName_eq_none_iff.mp (by decide))).1

end Examples

end SavedQueries

end LiveDesk
