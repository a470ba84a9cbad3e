import LiveDesk.Proofs.Desk.Versions
import LiveDesk.Proofs.Session.Requests
import LiveDesk.Proofs.TableFields.Edits

/-!
# Columns that cannot be saved

Every column must have a key, and no two columns the same. A save is refused for the first column
that offends, and then nothing else happens. Otherwise the columns that were checked are sent, even
if a subscriber edits them before the request is on its way.

- `Spelled`, `Offends`: keys, and what is wrong with a column after those before it.
- `FirstOffence`, `Clean`: what is wrong with columns first, and that nothing is.
- `check_spec`: the check finds the first offence.
- `sendable_of_sent`: columns that are sent do not offend.
- **`save_sends_what_it_checks`**: what comes of a save, whatever is done before and after it.
- `save_sends_what_it_checks_nested`: the columns are edited before they are sent.
-/

namespace LiveDesk.TableFields

open Observable Session

/-! ## Offences -/

/-- A key is a lower-case ASCII letter and then such letters, digits and underscores. -/
def Spelled (key : String) : Prop :=
  ∃ c cs, key.toList = c :: cs ∧ ('a' ≤ c ∧ c ≤ 'z') ∧
    ∀ d ∈ cs, 'a' ≤ d ∧ d ≤ 'z' ∨ '0' ≤ d ∧ d ≤ '9' ∨ d = '_'

/-- What is wrong with a column after those before it: its key is none, or else it is the key of one
of them. -/
inductive Offends (before : List TableField) (f : TableField) : Refusal → Prop where
  | invalid : ¬ Spelled f.key → Offends before f (.invalidKey f.key)
  | duplicate : Spelled f.key → f.key ∈ before.map (·.key) →
    Offends before f (.duplicateKey f.key)

/-- No column offends. -/
def Clean (fields : List TableField) : Prop :=
  ∀ before f, before ++ [f] <+: fields → ∀ r, ¬ Offends before f r

/-- This is wrong with the first column that offends. -/
def FirstOffence (fields : List TableField) (r : Refusal) : Prop :=
  ∃ before f, before ++ [f] <+: fields ∧ Clean before ∧ Offends before f r

theorem isKey_iff {key : String} : TableField.isKey key = true ↔ Spelled key := by
  cases hkey : key.toList with
  | nil => simp [TableField.isKey, Spelled, hkey]
  | cons c cs =>
    simp [TableField.isKey, Spelled, hkey, Char.isLower, Char.isDigit, Char.le_def, or_assoc]

theorem checkFrom_append (seen : List String) (fields more : List TableField) :
    checkFrom seen (fields ++ more)
      = (checkFrom seen fields).or (checkFrom ((fields.map (·.key)).reverse ++ seen) more) := by
  induction fields generalizing seen with
  | nil => rfl
  | cons f rest ih =>
    simp only [List.cons_append, checkFrom]
    split
    · rfl
    · split
      · rfl
      · rw [ih, List.map_cons, List.reverse_cons, List.append_assoc, List.singleton_append]

/-- One more column is checked against the keys before it. -/
theorem checkFrom_singleton {before : List TableField} {f : TableField} {r : Refusal} :
    checkFrom ((before.map (·.key)).reverse ++ []) [f] = some r ↔ Offends before f r := by
  rw [List.append_nil]
  simp only [checkFrom, List.mem_reverse]
  constructor
  · intro h
    split at h
    next hkey =>
      cases h
      exact .invalid fun hspelled => by simp [isKey_iff.mpr hspelled] at hkey
    next hkey =>
      split at h
      next hmem =>
        cases h
        exact .duplicate (isKey_iff.mp (by simpa using hkey)) hmem
      next => cases h
  · intro h
    cases h with
    | invalid hkey => rw [if_pos (by simp [mt isKey_iff.mp hkey])]
    | duplicate hkey hmem => rw [if_neg (by simp [isKey_iff.mpr hkey]), if_pos hmem]

theorem clean_concat {fields : List TableField} {f : TableField} :
    Clean (fields ++ [f]) ↔ Clean fields ∧ ∀ r, ¬ Offends fields f r := by
  constructor
  · exact fun h => ⟨fun before g hg => h before g (hg.trans (List.prefix_append _ _)),
      h fields f (List.prefix_refl _)⟩
  · rintro ⟨hclean, hf⟩ before g hg
    rcases List.prefix_concat_iff.mp hg with heq | hg
    · obtain ⟨rfl, hgf⟩ := List.append_inj' heq rfl
      obtain rfl : g = f := by simpa using hgf
      exact hf
    · exact hclean before g hg

theorem firstOffence_concat {fields : List TableField} {f : TableField} {r : Refusal} :
    FirstOffence (fields ++ [f]) r ↔ FirstOffence fields r ∨ Clean fields ∧ Offends fields f r := by
  constructor
  · rintro ⟨before, g, hg, hclean, hoffends⟩
    rcases List.prefix_concat_iff.mp hg with heq | hg
    · obtain ⟨rfl, hgf⟩ := List.append_inj' heq rfl
      obtain rfl : g = f := by simpa using hgf
      exact .inr ⟨hclean, hoffends⟩
    · exact .inl ⟨before, g, hg, hclean, hoffends⟩
  · rintro (⟨before, g, hg, h⟩ | h)
    · exact ⟨before, g, hg.trans (List.prefix_append _ _), h⟩
    · exact ⟨fields, f, List.prefix_refl _, h⟩

/-- **The check finds the first offence.** -/
theorem check_spec (fields : List TableField) :
    (check fields = none ↔ Clean fields) ∧
      ∀ r, check fields = some r ↔ FirstOffence fields r := by
  induction fields using List.reverseRecOn with
  | nil =>
    have hnil : ∀ before f, ¬ before ++ [f] <+: ([] : List TableField) := by simp
    refine ⟨⟨fun _ before f hf => absurd hf (hnil before f), fun _ => rfl⟩, fun r => ⟨nofun, ?_⟩⟩
    rintro ⟨before, f, hf, -⟩
    exact absurd hf (hnil before f)
  | append_singleton fields f ih =>
    obtain ⟨hnone, hsome⟩ := ih
    -- one more column is checked only if those before it are clean
    have hcheck : check (fields ++ [f])
        = (check fields).or (checkFrom ((fields.map (·.key)).reverse ++ []) [f]) :=
      checkFrom_append [] fields [f]
    have hlast : checkFrom ((fields.map (·.key)).reverse ++ []) [f] = none
        ↔ ∀ r, ¬ Offends fields f r := by
      simp only [← checkFrom_singleton, Option.eq_none_iff_forall_ne_some, ne_eq]
    rw [hcheck, clean_concat, ← hnone, Option.or_eq_none_iff, hlast]
    refine ⟨Iff.rfl, fun r => ?_⟩
    rw [firstOffence_concat, ← hsome, ← hnone, ← checkFrom_singleton]
    cases check fields <;> simp

/-- Columns that do not offend have keys, no two the same. -/
theorem clean_iff {fields : List TableField} :
    Clean fields ↔ (∀ f ∈ fields, Spelled f.key) ∧ (fields.map (·.key)).Nodup := by
  rw [← (check_spec fields).1, check, checkFrom_eq_none]
  simp [isKey_iff]

theorem clean_or_firstOffence (fields : List TableField) :
    Clean fields ∨ ∃ r, FirstOffence fields r := by
  obtain ⟨hnone, hsome⟩ := check_spec fields
  cases hcheck : check fields with
  | none => exact .inl (hnone.mp hcheck)
  | some r => exact .inr ⟨r, (hsome r).mp hcheck⟩

/-! ## Saves -/

theorem accept_save_noEntity {x : State} (h : x.entity = none) :
    feature.accept Ask.save x = .refuse .noEntity := by
  simp only [feature, accept, h]

theorem accept_save_offence {x : State} (hentity : x.entity ≠ none) {r : Refusal}
    (h : FirstOffence x.fields r) : feature.accept Ask.save x = .refuse r := by
  obtain ⟨entity, hentity⟩ := Option.ne_none_iff_exists'.mp hentity
  simp only [feature, accept, hentity, ((check_spec x.fields).2 r).mpr h]

theorem accept_save_clean {x : State} {entity : String} (hentity : x.entity = some entity)
    (h : Clean x.fields) : feature.accept Ask.save x = .proceed (.save entity x.fields) := by
  simp only [feature, accept, hentity, (check_spec x.fields).1.mpr h]

section Runs

variable {V : Type} [DecidableEq V]

/-- Asking for a save in this session does nothing but to return the error, and nothing is ever sent
for it. -/
def Refuses (ms : List (Session.Move feature V)) (r : Refusal) : Prop :=
  let start : Session feature V := opening .opening
  let s := start.after ms
  s.step (.ask Ask.save)
      = ({ s with nextCall := s.nextCall + 1 }, [.answered s.nextCall (.error (.refused r))]) ∧
    ∀ later, requestsOf s.nextCall (start.events (ms ++ .ask Ask.save :: later)) = []

theorem refuses_of_accept {ms : List (Session.Move feature V)} {r : Refusal}
    (hfree : ((opening .opening : Session feature V).after ms).isFree = true)
    (h : feature.accept Ask.save ((opening .opening : Session feature V).after ms).state
      = .refuse r) : Refuses ms r :=
  ⟨step_of_refuse hfree h, requestsOf_of_declined (turn_of_refuse hfree h)⟩

/-- Columns that are sent were at hand when a save was asked for, and none of them offends. -/
theorem sendable_of_sent {ms : List (Session.Move feature V)} {id : CallId} {entity : String}
    {fields : List TableField}
    (h : .sent id (.saveFields entity fields)
      ∈ (opening .opening : Session feature V).events ms) :
    ((∀ f ∈ fields, Spelled f.key) ∧ (fields.map (·.key)).Nodup) ∧
      ∃ a b, ms = a ++ .ask Ask.save :: b ∧
        ((opening .opening : Session feature V).after a).isFree = true ∧
        ((opening .opening : Session feature V).after a).nextCall = id ∧
        ((opening .opening : Session feature V).after a).state.entity = some entity ∧
        ((opening .opening : Session feature V).after a).state.fields = fields := by
  obtain ⟨a, ask, b, c, hms, hfree, hid, haccept, hrequest⟩ := asked_of_sent h
  generalize hs : (opening .opening : Session feature V).after a = s at hfree hid haccept
  cases ask with
  | load name reload =>
    cases haccept
    cases hrequest
  | save =>
    obtain ⟨name, hname, rfl⟩ := accept_save haccept
    cases hrequest
    have hclean : Clean s.state.fields := by
      rcases clean_or_firstOffence s.state.fields with hclean | ⟨r, hr⟩
      · exact hclean
      · rw [accept_save_offence (by simp [hname]) hr] at haccept
        cases haccept
    exact ⟨clean_iff.mp hclean, a, b, hms, hs ▸ hfree, hs ▸ hid, hs ▸ hname, hs ▸ rfl⟩

/-- **A save sends what it has checked.** In every session, whatever is done before and after:

- a save without an entity is refused, and so is one of columns that offend, for the first of them;
  then nothing else happens;
- every other save sends one request, with the entity and the columns of that moment, whatever the
  subscribers do when they are called with the raised flag. It sends none only as long as they are
  at it, or if their code fails;
- so columns that are sent have keys, no two the same. -/
theorem save_sends_what_it_checks {ms : List (Session.Move feature V)}
    (hfree : ((opening .opening : Session feature V).after ms).isFree = true) :
    let start : Session feature V := opening .opening
    let s := start.after ms
    (s.state.entity = none → Refuses ms .noEntity) ∧
    (∀ r, s.state.entity ≠ none → FirstOffence s.state.fields r → Refuses ms r) ∧
    (∀ entity, s.state.entity = some entity → (∀ r, ¬ FirstOffence s.state.fields r) →
      ∀ later,
        let all := ms ++ .ask Ask.save :: later
        let c : Call := .save entity s.state.fields
        requestsOf s.nextCall (start.events all) = [.saveFields entity s.state.fields] ∨
          requestsOf s.nextCall (start.events all) = [] ∧
            ((start.after all).Beginning s.nextCall c ∧
              (∀ below, (start.after all).store.stack = .code (.sending s.nextCall c) :: below →
                ((start.after all).step .tick).2
                  = [.sent s.nextCall (.saveFields entity s.state.fields)]) ∨
              start.GivenUp all (.sending s.nextCall c))) ∧
    ∀ run id entity fields, .sent id (.saveFields entity fields) ∈ start.events run →
      ((∀ f ∈ fields, Spelled f.key) ∧ (fields.map (·.key)).Nodup) ∧
      ∃ a b, run = a ++ .ask Ask.save :: b ∧ (start.after a).isFree = true ∧
        (start.after a).nextCall = id ∧ (start.after a).state.entity = some entity ∧
        (start.after a).state.fields = fields := by
  intro start s
  refine ⟨fun hentity => refuses_of_accept hfree (accept_save_noEntity hentity),
    fun r hentity hr => refuses_of_accept hfree (accept_save_offence hentity hr),
    fun entity hentity hnone later => ?_, fun run id entity fields => sendable_of_sent⟩
  intro all c
  have hclean : Clean s.state.fields :=
    (clean_or_firstOffence s.state.fields).resolve_right fun ⟨r, hr⟩ => hnone r hr
  have hturn : s.turn (.ask Ask.save) = .opened s.nextCall c :=
    turn_of_opened hfree (accept_save_clean hentity hclean) rfl
  rcases requestsOf_of_opened hturn later with hsent | ⟨hunsent, hbegins | hgiven⟩
  · exact .inl hsent
  · exact .inr ⟨hunsent, .inl ⟨hbegins, fun below hstack => step_of_begun hstack⟩⟩
  · exact .inr ⟨hunsent, .inr hgiven⟩

end Runs

section Examples

theorem state_shownArticles :
    ((opening .opening : Session feature Nat).after shownArticles).state
      = ⟨some "articles", [title], false, true, false, false⟩ := by cbv

/-- The title is hidden by a subscriber that is called with the raised flag, and the title that was
checked is sent. -/
theorem save_sends_what_it_checks_nested :
    let start : Session feature Nat := opening .opening
    let all := shownArticles ++ .ask Ask.save :: nestedEdit
    (start.after shownArticles).isFree = true ∧
      (start.after all).state.fields = [{ title with visible := false }] ∧
      requestsOf 1 (start.events all) = [.saveFields "articles" [title]] := by
  intro start all
  have hclean : ∀ r, ¬ FirstOffence [title] r := fun r hr =>
    absurd (((check_spec [title]).2 r).mpr hr) (by rw [show check [title] = none by decide]; simp)
  obtain ⟨-, -, hsent, -⟩ := save_sends_what_it_checks (V := Nat) isFree_shownArticles
  rw [nextCall_shownArticles, state_shownArticles] at hsent
  refine ⟨isFree_shownArticles, congrArg (fun o => o.state.fields) outline_nestedEdit, ?_⟩
  rcases hsent "articles" rfl hclean nestedEdit with h | ⟨-, ⟨hbegins, -⟩ | ⟨-, a, b, hall, -⟩⟩
  · exact h
  · -- the subscriber has returned
    have hmem := mem_spots_sending.mpr hbegins
    rw [outline_nestedEdit] at hmem
    cases List.mem_singleton.mp hmem
  · have hpanic : Session.Move.panic ∈ shownArticles ++ .ask Ask.save :: nestedEdit := by
      rw [hall]
      simp
    simp [shownArticles, loadArticles, catchUp, nestedEdit] at hpanic

end Examples

end LiveDesk.TableFields
